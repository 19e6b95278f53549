import Haybarn.Bridge.Talk

/-!
# What the adapter holds

The other side of a registration. An adapter is told of a target by `vgi-init` or
`vgi-register-target`, accepts it with `vgi-ready` or `vgi-target-ready`, and drops it
when it is told to: `offers` reads this off the conversation, in the order of the
messages, and `held` are the channels that were accepted and not dropped.

The bridge records the same channels as long as every acceptance comes while it is
awaited. A registration that timed out is given up by the bridge alone: nothing tells the
adapter to drop the target, so an acceptance that comes later leaves it with a channel
the bridge does not know (`late_acceptance`).
-/

namespace Haybarn.Bridge

open Haybarn.Lib

/-- A target the adapter was told of; the first one comes without a request id. -/
structure Offer where
  id : Option Nat
  target : String
  region : Region
  accepted : Bool
  deriving DecidableEq, Repr

def Offer.accept (o : Offer) : Offer := { o with accepted := true }

/-- What the adapter makes of one message, its own or the bridge's. -/
def hear (os : List Offer) : Exchange → List Offer
  | .sent (.init (some target) region) => [{ id := none, target, region, accepted := false }]
  | .sent (.init none _) => []
  | .sent (.register id target region) =>
    os ++ [{ id := some id, target, region, accepted := false }]
  | .sent (.unregister target offset) =>
    os.filter fun o => !(o.target = target && o.region.offset = offset)
  | .got .ready => os.map fun o => if o.id = none then o.accept else o
  | .got .error => os.filter fun o => o.id ≠ none || o.accepted
  | .got (.targetReady id) => os.map fun o => if o.id = some id then o.accept else o
  | .got (.targetError id) => os.filter fun o => o.id ≠ some id || o.accepted

/-- The targets of a conversation that were not dropped or refused. -/
def offers (xs : List Exchange) : List Offer := xs.foldl hear []

/-- The channels the adapter has accepted and was not told to drop. -/
def held (xs : List Exchange) : List Region :=
  ((offers xs).filter (·.accepted)).map (·.region)

theorem offers_append (xs ys : List Exchange) : offers (xs ++ ys) = ys.foldl hear (offers xs) :=
  List.foldl_append

/-- Every id was posted. -/
theorem hear_id {os : List Offer} {x : Exchange} {o : Offer} {id : Nat} (ho : o ∈ hear os x)
    (hid : o.id = some id) : (∃ o' ∈ os, o'.id = some id) ∨ x.registers = some id := by
  -- accepting keeps the ids
  have accept : ∀ p : Offer → Prop, ∀ [DecidablePred p],
      o ∈ (os.map fun o => if p o then o.accept else o) → ∃ o' ∈ os, o'.id = some id := by
    intro p _ hmem
    obtain ⟨o', ho', rfl⟩ := List.mem_map.mp hmem
    refine ⟨o', ho', ?_⟩
    rw [← hid]
    split <;> rfl
  unfold hear at ho
  split at ho
  · obtain rfl := List.mem_singleton.mp ho
    cases hid
  · cases ho
  · rcases List.mem_append.mp ho with hold | hnew
    · exact .inl ⟨o, hold, hid⟩
    · obtain rfl := List.mem_singleton.mp hnew
      exact .inr hid
  · exact .inl ⟨o, (List.mem_filter.mp ho).1, hid⟩
  · exact .inl (accept _ ho)
  · exact .inl ⟨o, (List.mem_filter.mp ho).1, hid⟩
  · exact .inl (accept _ ho)
  · exact .inl ⟨o, (List.mem_filter.mp ho).1, hid⟩

theorem offers_id (xs : List Exchange) : ∀ o ∈ offers xs, ∀ id, o.id = some id →
    ∃ x ∈ xs, x.registers = some id := by
  induction xs using List.reverseRecOn with
  | nil => intro o ho; cases ho
  | append_singleton xs x ih =>
    intro o ho id hid
    rw [offers_append] at ho
    rcases hear_id ho hid with ⟨o', ho', hid'⟩ | hx
    · obtain ⟨y, hy, hreg⟩ := ih o' ho' id hid'
      exact ⟨y, List.mem_append_left _ hy, hreg⟩
    · exact ⟨x, List.mem_append_right _ (List.mem_singleton_self x), hx⟩

/-- The messages of a registration: the displaced targets are dropped, the new one is told. -/
theorem hear_registration (gone : List TargetRegion) (id : Nat) (target : String)
    (region : Region) (os : List Offer) :
    ((registration gone id target region).map .sent).foldl hear os =
      (os.filter fun o => gone.all fun v =>
        !(o.target = v.target && o.region.offset = v.region.offset)) ++
      [{ id := some id, target, region, accepted := false }] := by
  have hdrop : ∀ os : List Offer,
      ((gone.map fun v => Msg.unregister v.target v.region.offset).map .sent).foldl hear os =
        os.filter fun o => gone.all fun v =>
          !(o.target = v.target && o.region.offset = v.region.offset) := by
    induction gone with
    | nil => simp
    | cons v gone ih =>
      intro os
      rw [List.map_cons, List.map_cons, List.foldl_cons, ih]
      show (os.filter _).filter _ = _
      rw [List.filter_filter]
      refine List.filter_congr fun o _ => ?_
      rw [List.all_cons, Bool.and_comm]
  unfold registration
  rw [List.map_append, List.foldl_append, hdrop]
  rfl

/-! ## Agreement -/

/-- The bridge's entry and the adapter's offers name the same targets, and a registration
that is awaited is one of the offers. -/
structure Agrees (e : AdapterEntry) (os : List Offer) : Prop where
  kept : ∀ p ∈ bound e, ∃ o ∈ os, o.accepted = true ∧ (o.target, o.region) = p
  known : ∀ o ∈ os, o.accepted = true → (o.target, o.region) ∈ bound e
  awaited : ∀ (i : Nat) (op : Operation) (id : Nat) (next : TargetRegion),
    e.operations[i]? = some op → op.status = .awaiting id next →
      (∃ o ∈ os, o.id = some id) ∧
        ∀ o ∈ os, o.id = some id → (o.target, o.region) = (next.target, next.region)

variable {opts : Options} {s s' : State} {ev : Event} {key : String} {e e' : AdapterEntry}
  {os : List Offer}

/-- Accepting the offers of one id keeps the agreement, if the bridge knows them now. -/
theorem Agrees.accept (ha : Agrees e os) {id : Nat} (hsub : ∀ p ∈ bound e, p ∈ bound e')
    (hnew : ∀ p ∈ bound e', p ∈ bound e ∨ ∃ o ∈ os, o.id = some id ∧ (o.target, o.region) = p)
    (hknown : ∀ o ∈ os, o.id = some id → o.accepted = false → (o.target, o.region) ∈ bound e')
    (hawaits : AwaitsFrom e e') : Agrees e' (hear os (.got (.targetReady id))) := by
  have hmem : ∀ o' ∈ hear os (.got (.targetReady id)), ∃ o ∈ os,
      o'.id = o.id ∧ o'.target = o.target ∧ o'.region = o.region ∧
        (o'.accepted = true → o.accepted = true ∨ o.id = some id) := by
    intro o' ho'
    obtain ⟨o, ho, rfl⟩ := List.mem_map.mp ho'
    refine ⟨o, ho, ?_⟩
    split
    next hid => exact ⟨rfl, rfl, rfl, fun _ => .inr hid⟩
    next => exact ⟨rfl, rfl, rfl, .inl⟩
  have himage : ∀ o ∈ os, ∃ o' ∈ hear os (.got (.targetReady id)),
      o'.id = o.id ∧ o'.target = o.target ∧ o'.region = o.region ∧
        (o.accepted = true ∨ o.id = some id → o'.accepted = true) := by
    intro o ho
    refine ⟨_, List.mem_map_of_mem ho, ?_⟩
    split
    next hid => exact ⟨rfl, rfl, rfl, fun _ => rfl⟩
    next hid => exact ⟨rfl, rfl, rfl, fun h => h.resolve_right hid⟩
  refine ⟨fun p hp => ?_, fun o' ho' hacc => ?_, fun i op id' next hop hs => ?_⟩
  · rcases hnew p hp with hold | ⟨o, ho, hid, hpair⟩
    · obtain ⟨o, ho, hacc, hpair⟩ := ha.kept p hold
      obtain ⟨o', ho', -, ht, hr, hacc'⟩ := himage o ho
      exact ⟨o', ho', hacc' (.inl hacc), by rw [ht, hr, hpair]⟩
    · obtain ⟨o', ho', -, ht, hr, hacc'⟩ := himage o ho
      exact ⟨o', ho', hacc' (.inr hid), by rw [ht, hr, hpair]⟩
  · obtain ⟨o, ho, -, ht, hr, hacc'⟩ := hmem o' ho'
    rw [ht, hr]
    by_cases hold : o.accepted = true
    · exact hsub _ (ha.known o ho hold)
    · exact hknown o ho ((hacc' hacc).resolve_left hold) (by simpa using hold)
  · obtain ⟨⟨o, ho, hid⟩, hall⟩ := ha.awaited i op id' next (hawaits i op id' next hop hs) hs
    refine ⟨?_, fun o' ho' hid' => ?_⟩
    · obtain ⟨o', ho', hid', -⟩ := himage o ho
      exact ⟨o', ho', hid'.trans hid⟩
    · obtain ⟨o₁, ho₁, hid₁, ht, hr, -⟩ := hmem o' ho'
      rw [ht, hr]
      exact hall o₁ ho₁ (hid₁.symm.trans hid')

/-- Displaced regions are dropped on both sides. -/
theorem Agrees.registering (ha : Agrees e os) (hi : EntryInv opts e) {i id : Nat} {op : Operation}
    {gone : List TargetRegion} {first : Region → Lanes} {lastUsed : Nat}
    (hop : e.operations[i]? = some op) (hw : op.status = .waiting)
    (hpre : predecessorSettled e.operations i = true)
    (hgone : displaced opts.maxTargetsPerAdapter e.regions op.target op.region first = some gone)
    (hfresh : ∀ o ∈ os, o.id ≠ some id) :
    Agrees { e with
      regions := without e.regions gone
      operations := setStatus e.operations i (.awaiting id
        { target := op.target, region := op.region, lastUsed }) }
      (((registration gone id op.target op.region).map .sent).foldl hear os) := by
  have hsub := (displaced_spec hi.distinct hi.size hgone).1
  rw [hear_registration]
  refine ⟨fun p hp => ?_, fun o ho hacc => ?_, fun j op' id' next hop' hs => ?_⟩
  · obtain ⟨r, hr, rfl⟩ := List.mem_map.mp hp
    obtain ⟨hr, hstay⟩ := mem_without.mp hr
    obtain ⟨o, ho, hacc, hpair⟩ := ha.kept _ (List.mem_map_of_mem hr)
    injection hpair with htarget hregion
    refine ⟨o, List.mem_append_left _ (List.mem_filter.mpr ⟨ho, ?_⟩), hacc, by
      rw [htarget, hregion]⟩
    refine List.all_eq_true.mpr fun v hv => ?_
    have hne : o.target ≠ v.target := by
      rw [htarget]
      exact (hstay v hv).symm
    simp [hne]
  · rcases List.mem_append.mp ho with hold | hnew
    · obtain ⟨ho, hstay⟩ := List.mem_filter.mp hold
      obtain ⟨r, hr, hpair⟩ := List.mem_map.mp (ha.known o ho hacc)
      injection hpair with htarget hregion
      refine List.mem_map.mpr ⟨r, mem_without.mpr ⟨hr, fun v hv he => ?_⟩, by
        rw [htarget, hregion]⟩
      -- what the bridge displaces the adapter drops
      obtain rfl := hi.distinct.target_inj (hsub v hv) hr he
      have hdrop := List.all_eq_true.mp hstay v hv
      rw [htarget, hregion] at hdrop
      simp at hdrop
    · obtain rfl := List.mem_singleton.mp hnew
      cases hacc
  · dsimp only at hop'
    rw [setStatus_get] at hop'
    split at hop'
    next hij =>
      subst hij
      rw [hop] at hop'
      obtain rfl := Option.some.inj hop'
      injection hs with hid hnext
      subst hid hnext
      refine ⟨⟨_, List.mem_append_right _ (List.mem_singleton_self _), rfl⟩, fun o ho hid => ?_⟩
      rcases List.mem_append.mp ho with hold | hnew
      · exact absurd hid (hfresh o (List.mem_filter.mp hold).1)
      · obtain rfl := List.mem_singleton.mp hnew
        rfl
    next hij =>
      -- nobody else awaits a reply while this one begins
      have hbefore := hi.chained.before hpre
      have hns : op.status ≠ .settled := by rw [hw]; simp
      by_cases hlt : j < i
      · rw [hbefore j op' hlt hop'] at hs
        cases hs
      · rw [hi.chained.after hop hns j op' (by omega) hop'] at hs
        cases hs

/-- **Every change keeps the agreement**, unless it is a late acceptance of a target the
bridge does not have. -/
theorem AdapterStep.agrees {xs : List Exchange} (h : AdapterStep opts s key ev e e' xs)
    (hi : EntryInv opts e) (ha : Agrees e os)
    (hfresh : ∀ o ∈ os, o.id ≠ some (s.registrationSequence + 1))
    (hlate : ∀ id, ev = .registrationReply key id true → awaited e.operations id = none →
      ∀ o ∈ os, o.id = some id → o.accepted = false → (o.target, o.region) ∈ bound e) :
    Agrees e' (xs.foldl hear os) := by
  cases h with
  | quiet _ _ _ hbound hawaits =>
    refine ⟨?_, ?_, fun i op id next hop hs => ha.awaited i op id next (hawaits i op id next hop hs) hs⟩
    · rw [hbound]
      exact ha.kept
    · rw [hbound]
      exact ha.known
  | registering first second _ i op gone hop hw hpre hgone =>
    exact ha.registering hi hop hw hpre hgone hfresh
  | registered id _ i op next hop hs =>
    obtain ⟨⟨o, ho, hid⟩, hall⟩ := ha.awaited i op id next hop hs
    obtain ⟨hfree, -⟩ := hi.awaiting i op id next hop hs
    have hset : setRegion e.regions next = e.regions ++ [next] :=
      setRegion_new fun r hr => (hfree r hr).1
    have hbound : bound { e with
        regions := setRegion e.regions next, operations := setStatus e.operations i .settled } =
        bound e ++ [(next.target, next.region)] := by
      unfold bound
      rw [hset, List.map_append]
      rfl
    refine ha.accept (fun p hp => ?_) (fun p hp => ?_) (fun o ho hid _ => ?_) (.settled i)
    · rw [hbound]
      exact List.mem_append_left _ hp
    · rw [hbound] at hp
      rcases List.mem_append.mp hp with hold | hnew
      · exact .inl hold
      · obtain rfl := List.mem_singleton.mp hnew
        exact .inr ⟨o, ho, hid, hall o ho hid⟩
    · rw [hbound, hall o ho hid]
      exact List.mem_append_right _ (List.mem_singleton_self _)
  | refused id _ _ hregions hawaits hnone =>
    have hbound : bound e' = bound e := by
      unfold bound
      rw [hregions]
    refine ⟨fun p hp => ?_, fun o ho hacc => ?_, fun i op id' next hop hs => ?_⟩
    · rw [hbound] at hp
      obtain ⟨o, ho, hacc, hpair⟩ := ha.kept p hp
      exact ⟨o, List.mem_filter.mpr ⟨ho, by simp [hacc]⟩, hacc, hpair⟩
    · rw [hbound]
      exact ha.known o (List.mem_filter.mp ho).1 hacc
    · have hne : id' ≠ id := by
        rintro rfl
        exact hnone op (List.mem_of_getElem? hop) next hs
      obtain ⟨⟨o, ho, hid⟩, hall⟩ := ha.awaited i op id' next (hawaits i op id' next hop hs) hs
      refine ⟨⟨o, List.mem_filter.mpr ⟨ho, ?_⟩, hid⟩, fun o ho => hall o (List.mem_filter.mp ho).1⟩
      rw [hid]
      simp [hne]
  | late id _ haw =>
    exact ha.accept (fun _ hp => hp) (fun _ hp => .inl hp) (hlate id rfl haw) (.refl e)

/-! ## Over a run -/

/-- An acceptance comes while it is awaited, or of a target the bridge has anyway. -/
def inTime (s : State) : Event → Bool
  | .registrationReply key id true =>
    match s.adapters key with
    | some e => (awaited e.operations id).isSome ||
        (offers (talk s.log e.worker)).all fun o =>
          o.id ≠ some id || o.accepted || (o.target, o.region) ∈ bound e
    | none => true
  | _ => true

def InTime (s : State) (ev : Event) : Prop := inTime s ev = true

instance (s : State) (ev : Event) : Decidable (InTime s ev) :=
  inferInstanceAs (Decidable (inTime s ev = true))

theorem InTime.late (h : InTime s ev) (hk : s.adapters key = some e) {id : Nat}
    (hev : ev = .registrationReply key id true) (haw : awaited e.operations id = none) :
    ∀ o ∈ offers (talk s.log e.worker), o.id = some id → o.accepted = false →
      (o.target, o.region) ∈ bound e := by
  intro o ho hid hacc
  subst hev
  unfold InTime inTime at h
  dsimp only at h
  rw [hk] at h
  dsimp only at h
  rw [haw, Option.isSome_none, Bool.false_or, List.all_eq_true] at h
  simpa [hid, hacc] using h o ho

/-- Every entry agrees with its worker; a worker that boots was told of one target. -/
structure Agreement (s : State) : Prop where
  boots : ∀ key boot w, s.pendingAdapters key = some boot → boot.worker = some w →
    offers (talk s.log w) =
      [{ id := none, target := boot.firstRegion.target, region := boot.firstRegion.region
         accepted := false }]
  entries : ∀ key e, s.adapters key = some e → Agrees e (offers (talk s.log e.worker))

theorem Agreement.initial : Agreement State.initial where
  boots _ _ _ h := by cases h
  entries _ _ h := by cases h

theorem Agreement.step_boots (ha : Agreement s) (hr : Roles s) (h : step opts s ev = some s')
    {boot : AdapterBoot} {w : WorkerId} (hb : s'.pendingAdapters key = some boot)
    (hw : boot.worker = some w) :
    offers (talk s'.log w) =
      [{ id := none, target := boot.firstRegion.target, region := boot.firstRegion.region
         accepted := false }] := by
  obtain ⟨new, hlog, hs'⟩ := step_log h
  rw [hs', talk_append]
  have kept : ∀ old, s.pendingAdapters key = some old → old.worker = some w →
      (∀ ok, ev ≠ .bootReply key ok) → offers (talk s.log w ++ talk new w) =
        [{ id := none, target := old.firstRegion.target, region := old.firstRegion.region
           accepted := false }] := by
    intro old hold hw hev
    rw [talk_quiet (hr.boot_quiet hlog hold hw hev), List.append_nil]
    exact ha.boots key old w hold hw
  cases Bridge.step_boots h hb with
  | same _ _ hold hev => exact kept boot hold hw hev
  | joined location region url target app old hold => exact kept old hold hw (by simp)
  | begun => cases hw
  | spawned old hold =>
    cases hlog with
    | nothing _ hsilent => cases hsilent
    | bootInit _ boot' hb' =>
      rw [hold] at hb'
      obtain rfl := Option.some.inj hb'
      obtain rfl := Option.some.inj hw
      rw [talk_one, offers_append]
      rfl

theorem Agreement.fresh (ha : Agreement s) (h : step opts s (.bootReply key true) = some s')
    {boot : AdapterBoot} {w : WorkerId} (hb : s.pendingAdapters key = some boot)
    (hw : boot.worker = some w) (hf : Fresh boot w e) : Agrees e (offers (talk s'.log w)) := by
  obtain ⟨new, hlog, hs'⟩ := step_log h
  cases hlog with
  | nothing _ hsilent => cases hsilent
  | bootReply _ boot' w' _ hb' hw' =>
    rw [hb] at hb'
    obtain rfl := Option.some.inj hb'
    rw [hw] at hw'
    obtain rfl := Option.some.inj hw'
    have hbound : bound e = [(boot.firstRegion.target, boot.firstRegion.region)] := by
      unfold bound
      rw [hf.regions]
      rfl
    have hoffers : offers (talk s'.log w) = [{
        id := none, target := boot.firstRegion.target, region := boot.firstRegion.region
        accepted := true }] := by
      rw [hs', talk_append, talk_one, offers_append, ha.boots key boot w hb hw]
      rfl
    rw [hoffers]
    refine ⟨?_, ?_, fun i op id next hop hs => ?_⟩
    · rw [hbound]
      intro p hp
      obtain rfl := List.mem_singleton.mp hp
      exact ⟨_, List.mem_singleton_self _, rfl, rfl⟩
    · rw [hbound]
      intro o ho _
      obtain rfl := List.mem_singleton.mp ho
      exact List.mem_singleton_self _
    · rw [(hf.operations op (List.mem_of_getElem? hop)).1] at hs
      cases hs

theorem Agreement.step (ha : Agreement s) (hi : Inv opts s) (hr : Roles s) (hn : Numbered s)
    (hok : InTime s ev) (h : step opts s ev = some s') : Agreement s' := by
  refine ⟨fun key boot w hb hw => ha.step_boots hr h hb hw, fun key e' he' => ?_⟩
  rcases hk : s.adapters key with _ | e
  · rcases (step_changes hr.apart h).fresh key hk with
      hnone | ⟨boot, w, e₁, rfl, hb, hw, he₁, hfresh⟩
    · rw [hnone] at he'
      cases he'
    · rw [he₁] at he'
      obtain rfl := Option.some.inj he'
      rw [hfresh.worker]
      exact ha.fresh h hb hw hfresh
  · obtain ⟨e₁, xs, he₁, hworker, htalk, hadapter⟩ := step_adapter hi hr h hk
    rw [he₁] at he'
    obtain rfl := Option.some.inj he'
    rw [hworker, htalk, offers_append]
    refine hadapter.agrees (hi.entries key e hk) (ha.entries key e hk) (fun o ho hid => ?_)
      fun id hev haw => hok.late hk hev haw
    -- the next id has not been posted
    obtain ⟨x, hx, hreg⟩ := offers_id _ o ho _ hid
    obtain ⟨y, hy, hyx⟩ := List.mem_filterMap.mp hx
    split at hyx
    · obtain rfl := Option.some.inj hyx
      have hle := hn y hy _ hreg
      omega
    · cases hyx

/-- **Bridge and adapter agree**: in every run in which acceptances come in time, the
channels an adapter has accepted and was not told to drop are the regions of its entry. -/
theorem adapter_agrees {es : List Event} (h : Run (step opts) InTime State.initial es s)
    (hk : s.adapters key = some e) (region : Region) :
    region ∈ held (talk s.log e.worker) ↔ ∃ r ∈ e.regions, r.region = region := by
  have hall : (Inv opts s ∧ Roles s) ∧ Numbered s ∧ Agreement s := by
    refine h.invariant (P := fun s => (Inv opts s ∧ Roles s) ∧ Numbered s ∧ Agreement s)
      ⟨⟨.initial, .initial⟩, .initial, .initial⟩ ?_
    intro s ev s' hinv hok hs
    obtain ⟨⟨hi, hr⟩, hn, ha⟩ := hinv
    exact ⟨⟨hi.step hs, hr.step hs⟩, hn.step hs, ha.step hi hr hn hok hs⟩
  obtain ⟨-, -, ha⟩ := hall
  have hagree := ha.entries key e hk
  constructor
  · intro hmem
    obtain ⟨o, ho, rfl⟩ := List.mem_map.mp hmem
    obtain ⟨ho, hacc⟩ := List.mem_filter.mp ho
    obtain ⟨r, hr, hpair⟩ := List.mem_map.mp (hagree.known o ho hacc)
    injection hpair with _ hregion
    exact ⟨r, hr, hregion⟩
  · intro hmem
    obtain ⟨r, hr, rfl⟩ := hmem
    obtain ⟨o, ho, hacc, hpair⟩ := hagree.kept _ (List.mem_map_of_mem hr)
    injection hpair with _ hregion
    exact List.mem_map.mpr ⟨o, List.mem_filter.mpr ⟨ho, hacc⟩, hregion⟩

theorem adapter_agrees_replaced : ∃ s e,
    Run (step (oneAdapter 1 (by decide))) InTime State.initial replaceRun s ∧
    s.adapters "iroh-v1" = some e ∧ e.regions.map (·.region) = [⟨1, 0⟩] ∧
    ∀ region, region ∈ held (talk s.log e.worker) ↔ ∃ r ∈ e.regions, r.region = region := by
  obtain ⟨s, hrun, hp⟩ := Run.exists_of_execute (show (execute (step (oneAdapter 1 (by decide)))
    InTime State.initial replaceRun).map (fun s => decide ((s.adapters "iroh-v1").map
      (fun e => e.regions.map (·.region)) = some [⟨1, 0⟩])) = some true by decide +kernel)
  obtain ⟨e, he, hregions⟩ := Option.map_eq_some_iff.mp (of_decide_eq_true hp)
  exact ⟨s, e, hrun, he, hregions, adapter_agrees hrun he⟩

/-! ## An acceptance that comes too late -/

/-- A second target whose registration times out before the adapter accepts it. -/
def lateRun : List Event :=
  [.ensure "node-a" ⟨0, 0⟩, .spawned "iroh-v1" true, .bootReply "iroh-v1" true,
    .ensure "node-b" ⟨1, 0⟩, .begin "iroh-v1" 0 (fun _ => freeSlot) (fun _ => freeSlot),
    .timeout "iroh-v1" 0, .registrationReply "iroh-v1" 1 true]

/-- Every registration is over and every message answered, and the adapter holds a channel
that the bridge does not know. -/
theorem late_acceptance : ∃ s e,
    Run (step (oneAdapter 2 (by decide))) Always State.initial lateRun s ∧
    s.adapters "iroh-v1" = some e ∧ (∀ op ∈ e.operations, op.status = .settled) ∧
    (∀ o ∈ offers (talk s.log e.worker), o.accepted = true) ∧
    ¬∀ region, region ∈ held (talk s.log e.worker) ↔ ∃ r ∈ e.regions, r.region = region := by
  obtain ⟨s, hrun, hp⟩ := Run.exists_of_execute (show (execute (step (oneAdapter 2 (by decide)))
    Always State.initial lateRun).map (fun s => decide ((s.adapters "iroh-v1").map
      (fun e => (e.operations.all (·.status = .settled), e.regions.map (·.region),
        (offers (talk s.log e.worker)).all (·.accepted), held (talk s.log e.worker))) =
          some (true, [⟨0, 0⟩], true, [⟨0, 0⟩, ⟨1, 0⟩]))) = some true by decide +kernel)
  obtain ⟨e, he, hall⟩ := Option.map_eq_some_iff.mp (of_decide_eq_true hp)
  simp only [Prod.mk.injEq, List.all_eq_true, decide_eq_true_eq] at hall
  obtain ⟨hsettled, hregions, haccepted, hheld⟩ := hall
  refine ⟨s, e, hrun, he, hsettled, haccepted, fun hagree => ?_⟩
  obtain ⟨r, hr, hregion⟩ := (hagree ⟨1, 0⟩).mp (by rw [hheld]; decide)
  have hmem : r.region ∈ e.regions.map (·.region) := List.mem_map_of_mem hr
  rw [hregions, hregion] at hmem
  revert hmem
  decide

end Haybarn.Bridge
