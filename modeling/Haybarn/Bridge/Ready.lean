import Haybarn.Bridge.Workers

/-!
# What a success means

Where a success comes from: every request the bridge has granted was an adapter's, and
then the adapter's worker was handed just that region and acknowledged it, or a URL's,
and then the URL's worker was handed the region of the request that started it. The
records are read off the log: what follows a `vgi-init` there, with nothing exchanged
with that worker in between, is the answer to it (`Booted`), and a `vgi-target-ready`
names the registration it answers (`Accepted`).

`Provenance` is the invariant. It follows a region from the request to the boot or the
queued operation, to the message, to the reply.
-/

namespace Haybarn.Bridge

open Haybarn.Lib

/-! ## Answers in the log -/

section

variable {log : List (WorkerId × Exchange)} {w : WorkerId} {target : Option String}
  {region : Region}

/-- The last thing between the bridge and `w` is this `vgi-init`. -/
def Offered (log : List (WorkerId × Exchange)) (w : WorkerId) (target : Option String)
    (region : Region) : Prop :=
  ∃ pre mid, log = pre ++ (w, .sent (.init target region)) :: mid ∧ ∀ x ∈ mid, x.1 ≠ w

/-- `w` answered this `vgi-init` with `vgi-ready`. -/
def Booted (log : List (WorkerId × Exchange)) (w : WorkerId) (target : Option String)
    (region : Region) : Prop :=
  ∃ before after, log = before ++ (w, .got .ready) :: after ∧ Offered before w target region

/-- `w` was posted a registration of the region and answered it with
`vgi-target-ready`. -/
def Accepted (log : List (WorkerId × Exchange)) (w : WorkerId) (region : Region) : Prop :=
  ∃ id target before after, log = before ++ (w, .got (.targetReady id)) :: after ∧
    (w, .sent (.register id target region)) ∈ before

/-- `w` was handed exactly this region and acknowledged it. -/
def Acknowledged (log : List (WorkerId × Exchange)) (w : WorkerId) (region : Region) : Prop :=
  (∃ target, Booted log w target region) ∨ Accepted log w region

theorem Offered.fresh : Offered (log ++ [(w, .sent (.init target region))]) w target region :=
  ⟨log, [], rfl, by simp⟩

theorem Offered.append {new : List (WorkerId × Exchange)} (h : Offered log w target region)
    (hnew : ∀ x ∈ new, x.1 ≠ w) : Offered (log ++ new) w target region := by
  obtain ⟨pre, mid, rfl, hmid⟩ := h
  refine ⟨pre, mid ++ new, by rw [List.append_assoc, List.cons_append], fun x hx => ?_⟩
  rcases List.mem_append.mp hx with hx | hx
  · exact hmid x hx
  · exact hnew x hx

theorem Offered.booted (h : Offered log w target region) :
    Booted (log ++ [(w, .got .ready)]) w target region := ⟨log, [], rfl, h⟩

theorem Booted.append (h : Booted log w target region) (new : List (WorkerId × Exchange)) :
    Booted (log ++ new) w target region := by
  obtain ⟨before, after, rfl, hoff⟩ := h
  exact ⟨before, after ++ new, by rw [List.append_assoc, List.cons_append], hoff⟩

theorem Accepted.append (h : Accepted log w region) (new : List (WorkerId × Exchange)) :
    Accepted (log ++ new) w region := by
  obtain ⟨id, target, before, after, rfl, hmem⟩ := h
  exact ⟨id, target, before, after ++ new, by rw [List.append_assoc, List.cons_append], hmem⟩

theorem Acknowledged.append (h : Acknowledged log w region) (new : List (WorkerId × Exchange)) :
    Acknowledged (log ++ new) w region := by
  rcases h with ⟨target, hb⟩ | ha
  · exact .inl ⟨target, hb.append new⟩
  · exact .inr (ha.append new)

end

variable {opts : Options} {s s' : State} {ev : Event}

/-! ## Who is spoken to -/

/-- A worker of an adapter that boots is spoken to only when it answers. -/
theorem Roles.boot_quiet (hr : Roles s) {new : List (WorkerId × Exchange)} {key : String}
    {boot : AdapterBoot} {w : WorkerId} (hl : Logged opts s ev new)
    (hb : s.pendingAdapters key = some boot) (hw : boot.worker = some w)
    (hev : ∀ ok, ev ≠ .bootReply key ok) : ∀ x ∈ new, x.1 ≠ w := by
  have hold : Holds s w key := .boot boot hb hw
  have hentry : ∀ k e, s.adapters k = some e → e.worker ≠ w := by
    intro k e hk he
    obtain rfl := hr.unique w k key (.entry e hk he) hold
    rw [hr.apart k (by rw [hb]; simp)] at hk
    cases hk
  intro x hx
  cases hl with
  | nothing => cases hx
  | bootInit k boot' hb' hw' =>
    obtain rfl := List.mem_singleton.mp hx
    dsimp only
    split
    next happ =>
      rintro rfl
      obtain rfl := (hr.appKey k boot' hb' happ).trans (hr.held key hold).symm
      rw [hb] at hb'
      obtain rfl := Option.some.inj hb'
      rw [hw] at hw'
      cases hw'
    next => exact Nat.ne_of_gt (hr.bound w key hold)
  | bootReply k boot' w' ok hb' hw' =>
    obtain rfl := List.mem_singleton.mp hx
    rintro rfl
    obtain rfl := hr.unique w' k key (.boot boot' hb' hw') hold
    exact hev ok rfl
  | registering k i first second e op gone hk =>
    obtain ⟨m, -, rfl⟩ := List.mem_map.mp hx
    exact hentry k e hk
  | registrationReply k e id ok hk =>
    obtain rfl := List.mem_singleton.mp hx
    exact hentry k e hk
  | legacyInit =>
    obtain rfl := List.mem_singleton.mp hx
    exact Nat.ne_of_gt (hr.bound w key hold)
  | legacyReply w' url ok hl =>
    obtain rfl := List.mem_singleton.mp hx
    rintro rfl
    exact (hr.listening w' url hl).2.2 key hold

/-- A worker of a URL is spoken to only when it answers. -/
theorem Roles.legacy_quiet (hr : Roles s) {new : List (WorkerId × Exchange)} {url : String}
    {w : WorkerId} (hl : Logged opts s ev new) (hw : s.listening w = some url)
    (hev : ∀ ok, ev ≠ .legacyReply w ok) : ∀ x ∈ new, x.1 ≠ w := by
  obtain ⟨hlt, happ, hfree⟩ := hr.listening w url hw
  intro x hx
  cases hl with
  | nothing => cases hx
  | bootInit k boot' hb' hw' =>
    obtain rfl := List.mem_singleton.mp hx
    dsimp only
    split
    · exact happ.symm
    · exact Nat.ne_of_gt hlt
  | bootReply k boot' w' ok hb' hw' =>
    obtain rfl := List.mem_singleton.mp hx
    rintro rfl
    exact hfree k (.boot boot' hb' hw')
  | registering k i first second e op gone hk =>
    obtain ⟨m, -, rfl⟩ := List.mem_map.mp hx
    exact fun he => hfree k (.entry e hk he)
  | registrationReply k e id ok hk =>
    obtain rfl := List.mem_singleton.mp hx
    exact fun he => hfree k (.entry e hk he)
  | legacyInit =>
    obtain rfl := List.mem_singleton.mp hx
    exact Nat.ne_of_gt hlt
  | legacyReply w' u ok hl =>
    obtain rfl := List.mem_singleton.mp hx
    rintro rfl
    exact hev ok rfl

/-! ## From a request to its answer -/

/-- Request `req` asks adapter `key` for the region. -/
def Asks (opts : Options) (s : State) (req : Nat) (key : String) (region : Region) : Prop :=
  ∃ location url target app, s.requests[req]? = some ⟨location, region⟩ ∧
    route opts location = .adapter key url target app

/-- Request `req` asks for the worker of the URL. -/
def AsksUrl (opts : Options) (s : State) (req : Nat) (url : String) : Prop :=
  ∃ r, s.requests[req]? = some r ∧ route opts r.location = .legacy url

/-- A request for the URL named the region. -/
def Origin (opts : Options) (s : State) (url : String) (region : Region) : Prop :=
  ∃ location, (⟨location, region⟩ : Request) ∈ s.requests ∧ route opts location = .legacy url

/-- What a granted request got. -/
inductive Served (opts : Options) (s : State) (r : Request) : Prop
  | adapter (key url target : String) (app : Bool) (e : AdapterEntry) :
      route opts r.location = .adapter key url target app → s.adapters key = some e →
      Acknowledged s.log e.worker r.region → Served opts s r
  | legacy (url : String) (w : WorkerId) (region : Region) :
      route opts r.location = .legacy url → Origin opts s url region →
      Booted s.log w none region → Served opts s r

/-- Where everything in a state comes from. -/
structure Provenance (opts : Options) (s : State) : Prop where
  boots : ∀ key boot, s.pendingAdapters key = some boot →
    Asks opts s boot.req key boot.firstRegion.region ∧
    (∀ j ∈ boot.joined, Asks opts s j.req key j.region) ∧
    ∀ w, boot.worker = some w →
      Offered s.log w (some boot.firstRegion.target) boot.firstRegion.region
  operations : ∀ key e, s.adapters key = some e →
    ∀ op ∈ e.operations, Asks opts s op.req key op.region
  posted : ∀ key e, s.adapters key = some e → ∀ (i : Nat) (op : Operation) (id : Nat)
    (next : TargetRegion), e.operations[i]? = some op → op.status = .awaiting id next →
      (e.worker, .sent (.register id op.target op.region)) ∈ s.log
  regions : ∀ key e, s.adapters key = some e →
    ∀ r ∈ e.regions, Acknowledged s.log e.worker r.region
  pending : ∀ url boot, s.pending url = some boot →
    Origin opts s url boot.region ∧ ∀ req ∈ boot.reqs, AsksUrl opts s req url
  listening : ∀ w url, s.listening w = some url → ∃ region, Origin opts s url region ∧
    (Offered s.log w none region ∨ Booted s.log w none region)
  workers : ∀ w url, s.workers url = some w →
    ∃ region, Origin opts s url region ∧ Booted s.log w none region
  granted : ∀ req, (req, true) ∈ s.signals → ∃ r, s.requests[req]? = some r ∧ Served opts s r

theorem Provenance.initial : Provenance opts State.initial where
  boots _ _ h := by cases h
  operations _ _ h := by cases h
  posted _ _ h := by cases h
  regions _ _ h := by cases h
  pending _ _ h := by cases h
  listening _ _ h := by cases h
  workers _ _ h := by cases h
  granted _ h := by cases h

/-! ## Requests stay -/

theorem step_requests (h : step opts s ev = some s') :
    s'.requests = s.requests ++ ev.requests := (step_outer h).requests

theorem step_requests_get (h : step opts s ev = some s') {i : Nat} {r : Request}
    (hr : s.requests[i]? = some r) : s'.requests[i]? = some r := by
  rw [step_requests h, List.getElem?_append_left (List.getElem?_eq_some_iff.mp hr).1]
  exact hr

theorem ensure_requests_get {location : String} {region : Region}
    (h : step opts s (.ensure location region) = some s') :
    s'.requests[s.requests.length]? = some ⟨location, region⟩ := by
  rw [step_requests h, List.getElem?_append_right (Nat.le_refl _), Nat.sub_self]
  rfl

theorem Asks.step {req : Nat} {key : String} {region : Region} (ha : Asks opts s req key region)
    (h : step opts s ev = some s') : Asks opts s' req key region := by
  obtain ⟨location, url, target, app, hr, hroute⟩ := ha
  exact ⟨location, url, target, app, step_requests_get h hr, hroute⟩

theorem AsksUrl.step {req : Nat} {url : String} (ha : AsksUrl opts s req url)
    (h : step opts s ev = some s') : AsksUrl opts s' req url := by
  obtain ⟨r, hr, hroute⟩ := ha
  exact ⟨r, step_requests_get h hr, hroute⟩

theorem Origin.step {url : String} {region : Region} (ho : Origin opts s url region)
    (h : step opts s ev = some s') : Origin opts s' url region := by
  obtain ⟨location, hmem, hroute⟩ := ho
  obtain ⟨i, hi⟩ := List.mem_iff_getElem?.mp hmem
  exact ⟨location, List.mem_of_getElem? (step_requests_get h hi), hroute⟩

/-! ## Each part of a state keeps its origin -/

theorem Provenance.step_boots (hp : Provenance opts s) (hr : Roles s)
    (h : step opts s ev = some s') {key : String} {boot : AdapterBoot}
    (hb : s'.pendingAdapters key = some boot) :
    Asks opts s' boot.req key boot.firstRegion.region ∧
    (∀ j ∈ boot.joined, Asks opts s' j.req key j.region) ∧
    ∀ w, boot.worker = some w →
      Offered s'.log w (some boot.firstRegion.target) boot.firstRegion.region := by
  obtain ⟨new, hlog, hs'⟩ := step_log h
  rw [hs']
  -- a boot that stays, and is not answered
  have kept : ∀ old, s.pendingAdapters key = some old → (∀ ok, ev ≠ .bootReply key ok) →
      Asks opts s' old.req key old.firstRegion.region ∧
      (∀ j ∈ old.joined, Asks opts s' j.req key j.region) ∧
      ∀ w, old.worker = some w →
        Offered (s.log ++ new) w (some old.firstRegion.target) old.firstRegion.region := by
    intro old hold hev
    obtain ⟨hreq, hjoined, hoff⟩ := hp.boots key old hold
    exact ⟨hreq.step h, fun j hj => (hjoined j hj).step h,
      fun w hw => (hoff w hw).append (hr.boot_quiet hlog hold hw hev)⟩
  cases Bridge.step_boots h hb with
  | same _ _ hold hev => exact kept boot hold hev
  | joined location region url target app old hold hroute =>
    obtain ⟨hreq, hjoined, hoff⟩ := kept old hold (by simp)
    refine ⟨hreq, fun j hj => ?_, hoff⟩
    rcases List.mem_append.mp hj with hj | hj
    · exact hjoined j hj
    · obtain rfl := List.mem_singleton.mp hj
      exact ⟨location, url, target, app, ensure_requests_get h, hroute⟩
  | begun location region url target app _ _ hroute =>
    refine ⟨⟨location, url, target, app, ensure_requests_get h, hroute⟩, ?_, ?_⟩
    · intro j hj
      cases hj
    · intro w hw
      cases hw
  | spawned old hold hw =>
    obtain ⟨hreq, hjoined, -⟩ := kept old hold (by simp)
    refine ⟨hreq, hjoined, fun w hw => ?_⟩
    cases hlog with
    | nothing _ hsilent => cases hsilent
    | bootInit _ boot' hb' =>
      rw [hold] at hb'
      obtain rfl := Option.some.inj hb'
      obtain rfl := Option.some.inj hw
      exact .fresh

theorem mem_setStatus {ops : List Operation} {i : Nat} {st : Status} {op : Operation}
    (h : op ∈ setStatus ops i st) :
    ∃ old ∈ ops, op.req = old.req ∧ op.target = old.target ∧ op.region = old.region := by
  obtain ⟨j, hj⟩ := List.mem_iff_getElem?.mp h
  rw [setStatus_get] at hj
  split at hj
  · obtain ⟨old, hold, rfl⟩ := Option.map_eq_some_iff.mp hj
    exact ⟨old, List.mem_of_getElem? hold, rfl, rfl, rfl⟩
  · exact ⟨op, List.mem_of_getElem? hj, rfl, rfl, rfl⟩

/-- An operation of an entry was there, or is a request that was just queued. -/
theorem EntryStep.operation {key : String} {e e' : AdapterEntry}
    (hstep : EntryStep opts s key ev e e') {op : Operation} (hop : op ∈ e'.operations) :
    (∃ old ∈ e.operations, op.req = old.req ∧ op.target = old.target ∧ op.region = old.region) ∨
    ∃ location url app, ev = .ensure location op.region ∧ op.req = s.requests.length ∧
      route opts location = .adapter key url op.target app := by
  cases hstep with
  | same => exact .inl ⟨op, hop, rfl, rfl, rfl⟩
  | queued location region url target app _ hroute =>
    rcases List.mem_append.mp hop with hold | hnew
    · exact .inl ⟨op, hold, rfl, rfl, rfl⟩
    · obtain rfl := List.mem_singleton.mp hnew
      exact .inr ⟨location, url, app, rfl, rfl, hroute⟩
  | settled => exact .inl (mem_setStatus hop)
  | touched => exact .inl (mem_setStatus hop)
  | registering => exact .inl (mem_setStatus hop)
  | registered => exact .inl (mem_setStatus hop)

theorem Provenance.step_operations (hp : Provenance opts s) (hap : Apart s)
    (h : step opts s ev = some s') {key : String} {e' : AdapterEntry}
    (he : s'.adapters key = some e') {op : Operation} (hop : op ∈ e'.operations) :
    Asks opts s' op.req key op.region := by
  have hc := step_changes hap h
  rcases hk : s.adapters key with _ | e
  · rcases hc.fresh key hk with hnone | ⟨boot, w, e₁, rfl, hb, -, he₁, hfresh⟩
    · rw [hnone] at he
      cases he
    · rw [he₁] at he
      obtain rfl := Option.some.inj he
      obtain ⟨-, j, hj, hreq, -, hregion⟩ := hfresh.operations op hop
      rw [hreq, hregion]
      exact ((hp.boots key boot hb).2.1 j hj).step h
  · obtain ⟨e₁, he₁, hstep⟩ := hc.kept key e hk
    rw [he₁] at he
    obtain rfl := Option.some.inj he
    rcases hstep.operation hop with ⟨old, hold, hreq, -, hregion⟩ | ⟨location, url, app, rfl, hreq, hroute⟩
    · rw [hreq, hregion]
      exact (hp.operations key e hk old hold).step h
    · rw [hreq]
      exact ⟨location, url, op.target, app, ensure_requests_get h, hroute⟩

/-- A region of an entry was there, or is the one that was just registered. -/
theorem EntryStep.region {key : String} {e e' : AdapterEntry}
    (hstep : EntryStep opts s key ev e e') {r : TargetRegion} (hr : r ∈ e'.regions) :
    (∃ old ∈ e.regions, r.target = old.target ∧ r.region = old.region) ∨
    ∃ (id i : Nat) (op : Operation), ev = .registrationReply key id true ∧
      e.operations[i]? = some op ∧ op.status = .awaiting id r := by
  cases hstep with
  | same => exact .inl ⟨r, hr, rfl, rfl⟩
  | queued => exact .inl ⟨r, hr, rfl, rfl⟩
  | settled => exact .inl ⟨r, hr, rfl, rfl⟩
  | touched =>
    obtain ⟨old, hold, rfl⟩ := List.mem_map.mp hr
    refine .inl ⟨old, hold, ?_, ?_⟩
    · split <;> rfl
    · split <;> rfl
  | registering => exact .inl ⟨r, (mem_without.mp hr).1, rfl, rfl⟩
  | registered id _ i op next hop hs =>
    have hmem : r ∈ e.regions ∨ r = next := by
      have hr' : r ∈ setRegion e.regions next := hr
      unfold setRegion at hr'
      split at hr'
      · obtain ⟨old, hold, rfl⟩ := List.mem_map.mp hr'
        split
        · exact .inr rfl
        · exact .inl hold
      · rcases List.mem_append.mp hr' with hold | hnew
        · exact .inl hold
        · exact .inr (List.mem_singleton.mp hnew)
    rcases hmem with hold | rfl
    · exact .inl ⟨r, hold, rfl, rfl⟩
    · exact .inr ⟨id, i, op, rfl, hop, hs⟩

theorem Provenance.step_regions (hp : Provenance opts s) (hi : Inv opts s)
    (h : step opts s ev = some s') {key : String} {e' : AdapterEntry}
    (he : s'.adapters key = some e') {r : TargetRegion} (hr : r ∈ e'.regions) :
    Acknowledged s'.log e'.worker r.region := by
  obtain ⟨new, hlog, hs'⟩ := step_log h
  rw [hs']
  have hc := step_changes hi.apart h
  rcases hk : s.adapters key with _ | e
  · rcases hc.fresh key hk with hnone | ⟨boot, w, e₁, rfl, hb, hbw, he₁, hfresh⟩
    · rw [hnone] at he
      cases he
    · rw [he₁] at he
      obtain rfl := Option.some.inj he
      rw [hfresh.regions] at hr
      obtain rfl := List.mem_singleton.mp hr
      rw [hfresh.worker]
      cases hlog with
      | nothing _ hsilent => cases hsilent
      | bootReply _ boot' w' _ hb' hw' =>
        rw [hb] at hb'
        obtain rfl := Option.some.inj hb'
        rw [hbw] at hw'
        obtain rfl := Option.some.inj hw'
        exact .inl ⟨_, ((hp.boots key boot hb).2.2 w hbw).booted⟩
  · obtain ⟨e₁, he₁, hstep⟩ := hc.kept key e hk
    rw [he₁] at he
    obtain rfl := Option.some.inj he
    rw [hstep.worker.1]
    rcases hstep.region hr with ⟨old, hold, -, hregion⟩ | ⟨id, i, op, rfl, hop, hs⟩
    · rw [hregion]
      exact (hp.regions key e hk old hold).append new
    · have hpost := hp.posted key e hk i op id r hop hs
      rw [← ((hi.entries key e hk).awaiting i op id r hop hs).2.2.2] at hpost
      cases hlog with
      | nothing _ hsilent => cases hsilent
      | registrationReply _ e₂ _ _ hk' =>
        rw [hk] at hk'
        obtain rfl := Option.some.inj hk'
        exact .inr ⟨id, op.target, s.log, [], rfl, hpost⟩

/-- An operation that awaits a reply did so before, or its registration was just posted. -/
theorem EntryStep.awaiting {key : String} {e e' : AdapterEntry}
    (hstep : EntryStep opts s key ev e e') (h : step opts s ev = some s')
    (hk : s.adapters key = some e) {i : Nat} {op : Operation} {id : Nat} {next : TargetRegion}
    (hop : e'.operations[i]? = some op) (hs : op.status = .awaiting id next) :
    e.operations[i]? = some op ∨ ∃ gone,
      s'.log = s.log ++ (registration gone id op.target op.region).map
        fun m => (e.worker, .sent m) := by
  -- an operation that was just settled awaits nothing
  have settled : ∀ (ops : List Operation) (j : Nat),
      (setStatus ops j .settled)[i]? = some op → ops[i]? = some op := by
    intro ops j hj
    rw [setStatus_get] at hj
    split at hj
    · obtain ⟨old, -, rfl⟩ := Option.map_eq_some_iff.mp hj
      cases hs
    · exact hj
  cases hstep with
  | same => exact .inl hop
  | queued =>
    left
    by_cases hlt : i < e.operations.length
    · rw [List.getElem?_append_left hlt] at hop
      exact hop
    · rw [List.getElem?_append_right (by omega)] at hop
      obtain rfl := List.mem_singleton.mp (List.mem_of_getElem? hop)
      cases hs
  | settled => exact .inl (settled _ _ hop)
  | touched => exact .inl (settled _ _ hop)
  | registered => exact .inl (settled _ _ hop)
  | registering first second _ j old gone hold hw hpre hcur hgone hidle =>
    dsimp only at hop
    rw [setStatus_get] at hop
    split at hop
    next hij =>
      subst hij
      rw [hold] at hop
      obtain rfl := Option.some.inj hop
      injection hs with hid _
      right
      refine ⟨gone, ?_⟩
      have hany : ¬gone.any (fun r => !regionIsIdle r.region (second r.region)) = true := by
        intro hany
        obtain ⟨r, hr, hbusy⟩ := List.any_eq_true.mp hany
        rw [hidle r hr] at hbusy
        cases hbusy
      rw [step, hk] at h
      dsimp only at h
      rw [hold] at h
      dsimp only at h
      rw [if_pos ⟨hw, hpre⟩] at h
      obtain rfl := Option.some.inj h
      unfold beginOperation
      rw [if_neg hcur, hgone]
      dsimp only
      rw [if_neg hany, ← hid]
      rfl
    next => exact .inl hop

theorem Provenance.step_posted (hp : Provenance opts s) (hap : Apart s)
    (h : step opts s ev = some s') {key : String} {e' : AdapterEntry}
    (he : s'.adapters key = some e') {i : Nat} {op : Operation} {id : Nat} {next : TargetRegion}
    (hop : e'.operations[i]? = some op) (hs : op.status = .awaiting id next) :
    (e'.worker, .sent (.register id op.target op.region)) ∈ s'.log := by
  obtain ⟨new, -, hlog⟩ := step_log h
  have hc := step_changes hap h
  rcases hk : s.adapters key with _ | e
  · rcases hc.fresh key hk with hnone | ⟨boot, w, e₁, rfl, hb, -, he₁, hfresh⟩
    · rw [hnone] at he
      cases he
    · rw [he₁] at he
      obtain rfl := Option.some.inj he
      rw [(hfresh.operations op (List.mem_of_getElem? hop)).1] at hs
      cases hs
  · obtain ⟨e₁, he₁, hstep⟩ := hc.kept key e hk
    rw [he₁] at he
    obtain rfl := Option.some.inj he
    rw [hstep.worker.1]
    rcases hstep.awaiting h hk hop hs with hold | ⟨gone, hpost⟩
    · rw [hlog]
      exact List.mem_append_left _ (hp.posted key e hk i op id next hold hs)
    · rw [hpost]
      refine List.mem_append_right _ (List.mem_map.mpr ⟨_, ?_, rfl⟩)
      exact List.mem_append_right _ (List.mem_singleton_self _)

theorem Provenance.step_pending (hp : Provenance opts s) (h : step opts s ev = some s')
    {url : String} {boot : LegacyBoot} (hb : s'.pending url = some boot) :
    Origin opts s' url boot.region ∧ ∀ req ∈ boot.reqs, AsksUrl opts s' req url := by
  have kept : ∀ old, s.pending url = some old →
      Origin opts s' url old.region ∧ ∀ req ∈ old.reqs, AsksUrl opts s' req url := by
    intro old hold
    obtain ⟨horigin, hreqs⟩ := hp.pending url old hold
    exact ⟨horigin.step h, fun req hreq => (hreqs req hreq).step h⟩
  cases (step_outer h).boot hb with
  | same _ _ hold => exact kept boot hold
  | joined location region old hold hroute =>
    obtain ⟨horigin, hreqs⟩ := kept old hold
    refine ⟨horigin, fun req hreq => ?_⟩
    rcases List.mem_append.mp hreq with hreq | hreq
    · exact hreqs req hreq
    · obtain rfl := List.mem_singleton.mp hreq
      exact ⟨_, ensure_requests_get h, hroute⟩
  | begun location region _ hroute =>
    refine ⟨⟨location, List.mem_of_getElem? (ensure_requests_get h), hroute⟩, fun req hreq => ?_⟩
    obtain rfl := List.mem_singleton.mp hreq
    exact ⟨_, ensure_requests_get h, hroute⟩
  | spawned old hold => exact kept old hold

/-- The worker of a URL holds the region of a request for it, answered or not. -/
def Hosts (opts : Options) (s : State) (w : WorkerId) (url : String) : Prop :=
  ∃ region, Origin opts s url region ∧ (Offered s.log w none region ∨ Booted s.log w none region)

/-- The worker of a URL that has posted `vgi-ready` has acknowledged its region. -/
theorem Hosts.ready {w : WorkerId} {url : String} (hh : Hosts opts s w url)
    (h : step opts s (.legacyReply w true) = some s') :
    ∃ region, Origin opts s' url region ∧ Booted s'.log w none region := by
  obtain ⟨region, horigin, hoff⟩ := hh
  obtain ⟨new, hlog, hs'⟩ := step_log h
  refine ⟨region, horigin.step h, ?_⟩
  rw [hs']
  rcases hoff with hoff | hboot
  · cases hlog with
    | nothing _ hsilent => cases hsilent
    | legacyReply => exact hoff.booted
  · exact hboot.append new

theorem Provenance.step_listening (hp : Provenance opts s) (hr : Roles s)
    (h : step opts s ev = some s') {w : WorkerId} {url : String}
    (hl : s'.listening w = some url) : Hosts opts s' w url := by
  obtain ⟨new, hlog, hs'⟩ := step_log h
  have hc : WorkerChanges s ev s'.outer := (step_outer h).workers
  rcases hc.listening w url hl with ⟨hold, herror⟩ | ⟨rfl, -, rfl⟩
  · by_cases hev : ev = .legacyReply w true
    · subst hev
      obtain ⟨region, horigin, hboot⟩ := Hosts.ready (hp.listening w url hold) h
      exact ⟨region, horigin, .inr hboot⟩
    · have hquiet : ∀ ok, ev ≠ .legacyReply w ok := by
        intro ok he
        cases ok with
        | true => exact hev he
        | false => exact herror he
      obtain ⟨region, horigin, hoff⟩ := hp.listening w url hold
      refine ⟨region, horigin.step h, ?_⟩
      rw [hs']
      rcases hoff with hoff | hboot
      · exact .inl (hoff.append (hr.legacy_quiet hlog hold hquiet))
      · exact .inr (hboot.append new)
  · cases hlog with
    | nothing _ hsilent => cases hsilent
    | legacyInit _ boot hb =>
      refine ⟨boot.region, (hp.pending url boot hb).1.step h, .inl ?_⟩
      rw [hs']
      exact .fresh

theorem Provenance.step_workers (hp : Provenance opts s) (h : step opts s ev = some s')
    {w : WorkerId} {url : String} (hw : s'.workers url = some w) :
    ∃ region, Origin opts s' url region ∧ Booted s'.log w none region := by
  have hc : WorkerChanges s ev s'.outer := (step_outer h).workers
  rcases hc.workers w url hw with hold | ⟨rfl, hl⟩
  · obtain ⟨new, -, hs'⟩ := step_log h
    obtain ⟨region, horigin, hboot⟩ := hp.workers w url hold
    rw [hs']
    exact ⟨region, horigin.step h, hboot.append new⟩
  · exact Hosts.ready (hp.listening w url hl) h

/-- What was served stays served. -/
theorem Served.step {r : Request} (hs : Served opts s r) (hap : Apart s)
    (h : step opts s ev = some s') : Served opts s' r := by
  obtain ⟨new, -, hlog⟩ := step_log h
  cases hs with
  | adapter key url target app e hroute hk hack =>
    obtain ⟨e', he', hstep⟩ := (step_changes hap h).kept key e hk
    refine .adapter key url target app e' hroute he' ?_
    rw [hstep.worker.1, hlog]
    exact hack.append new
  | legacy url w region hroute horigin hboot =>
    refine .legacy url w region hroute (horigin.step h) ?_
    rw [hlog]
    exact hboot.append new

/-- **What a step grants has been acknowledged.** -/
theorem Provenance.serves (hp : Provenance opts s) (hi : Inv opts s)
    (h : step opts s ev = some s') {req : Nat} (hg : Granted opts s ev req) :
    ∃ r, s'.requests[req]? = some r ∧ Served opts s' r := by
  have hap := hi.apart
  cases hg with
  | legacyRunning location region url w hroute hw =>
    obtain ⟨first, horigin, hboot⟩ := hp.workers w url hw
    obtain ⟨new, -, hlog⟩ := step_log h
    refine ⟨_, ensure_requests_get h, .legacy url w first hroute (horigin.step h) ?_⟩
    rw [hlog]
    exact hboot.append new
  | bootReady key boot w hb hw =>
    obtain ⟨location, url, target, app, hreq, hroute⟩ := ((hp.boots key boot hb).1).step h
    refine ⟨_, hreq, ?_⟩
    rcases (step_changes hap h).fresh key (hap key (by rw [hb]; simp)) with
      hnone | ⟨boot', w', e, -, hb', hw', he, hfresh⟩
    · -- the entry of a boot that was acknowledged is there
      obtain ⟨e, he⟩ := bootReady_entry h hb hw
      rw [hnone] at he
      cases he
    · rw [hb] at hb'
      obtain rfl := Option.some.inj hb'
      refine .adapter key url target app e hroute he ?_
      refine hp.step_regions hi h he ?_
      rw [hfresh.regions]
      exact List.mem_singleton_self _
  | touched key i first second e op hk hop hcur =>
    have hmem := List.mem_of_getElem? hop
    obtain ⟨location, url, target, app, hreq, hroute⟩ := hp.operations key e hk op hmem
    obtain ⟨r, hr, hregion⟩ := Option.map_eq_some_iff.mp hcur
    refine ⟨_, step_requests_get h hreq, Served.step (.adapter key url target app e hroute hk ?_) hap h⟩
    rw [← hregion]
    exact hp.regions key e hk r (current_some hr).1
  | registered key e id i op next hk hop hs =>
    have hmem := List.mem_of_getElem? hop
    obtain ⟨location, url, target, app, hreq, hroute⟩ := hp.operations key e hk op hmem
    obtain ⟨e', he', hstep⟩ := (step_changes hap h).kept key e hk
    refine ⟨_, step_requests_get h hreq, .adapter key url target app e' hroute he' ?_⟩
    have hpost := hp.posted key e hk i op id next hop hs
    obtain ⟨new, hlog, hs'⟩ := step_log h
    rw [hstep.worker.1, hs']
    cases hlog with
    | nothing _ hsilent => cases hsilent
    | registrationReply _ e₂ _ _ hk' =>
      rw [hk] at hk'
      obtain rfl := Option.some.inj hk'
      exact .inr ⟨id, op.target, s.log, [], rfl, hpost⟩
  | legacyReady w url boot req hl hb hw hreq =>
    obtain ⟨r, hr, hroute⟩ := (hp.pending url boot hb).2 req hreq
    obtain ⟨region, horigin, hboot⟩ := Hosts.ready (hp.listening w url hl) h
    exact ⟨r, step_requests_get h hr, .legacy url w region hroute horigin hboot⟩

/-- **Every step keeps the provenance.** -/
theorem Provenance.step (hp : Provenance opts s) (hi : Inv opts s) (hr : Roles s)
    (h : step opts s ev = some s') : Provenance opts s' where
  boots _ _ hb := hp.step_boots hr h hb
  operations _ _ he _ hop := hp.step_operations hi.apart h he hop
  posted _ _ he _ _ _ _ hop hs := hp.step_posted hi.apart h he hop hs
  regions _ _ he _ hreg := hp.step_regions hi h he hreg
  pending _ _ hb := hp.step_pending h hb
  listening _ _ hl := hp.step_listening hr h hl
  workers _ _ hw := hp.step_workers h hw
  granted req hreq := by
    rcases step_grants h req hreq with hold | hg
    · obtain ⟨r, hget, hserved⟩ := hp.granted req hold
      exact ⟨r, step_requests_get h hget, hserved.step hi.apart h⟩
    · exact hp.serves hi h hg

theorem Provenance.of_run {es : List Event} (h : Run (Bridge.step opts) Always State.initial es s) :
    Provenance opts s := by
  have hall : Inv opts s ∧ Roles s ∧ Provenance opts s :=
    h.invariant (P := fun s => Inv opts s ∧ Roles s ∧ Provenance opts s)
      ⟨.initial, .initial, .initial⟩
      fun _ _ _ ⟨hi, hr, hp⟩ _ hs => ⟨hi.step hs, hr.step hs, hp.step hi hr hs⟩
  exact hall.2.2

/-! ## Terminations -/

/-- A worker was terminated only after it posted `vgi-error`. -/
theorem terminated_error {es : List Event} (h : Run (step opts) Always State.initial es s) :
    ∀ w ∈ s.terminated, (w, .got .error) ∈ s.log := by
  induction h with
  | nil => intro w hw; cases hw
  | @snoc _ s s' ev hrun _ hs ih =>
    intro w hw
    obtain ⟨new, hlog, hs'⟩ := step_log hs
    have hc : WorkerChanges s ev s'.outer := (step_outer hs).workers
    rw [hs']
    rcases hc.terminated w hw with hold | ⟨key, boot, rfl, hb, hbw, -⟩ | ⟨url, rfl, hl⟩
    · exact List.mem_append_left _ (ih w hold)
    · refine List.mem_append_right _ ?_
      cases hlog with
      | nothing _ hsilent => cases hsilent
      | bootReply _ boot' w' _ hb' hw' =>
        rw [hb] at hb'
        obtain rfl := Option.some.inj hb'
        rw [hbw] at hw'
        obtain rfl := Option.some.inj hw'
        exact List.mem_singleton_self _
    · refine List.mem_append_right _ ?_
      cases hlog with
      | nothing _ hsilent => cases hsilent
      | legacyReply => exact List.mem_singleton_self _

/-- **What a success means**, in every run: an adapter's worker, which is not terminated,
was handed exactly the region of the request and acknowledged it; the worker of a URL was
handed the region of a request for that URL and acknowledged it, and was terminated at
most after an error of its own. -/
theorem success_acknowledged {es : List Event}
    (h : Run (step opts) Always State.initial es s) (req : Nat) (hreq : (req, true) ∈ s.signals) :
    ∃ r, s.requests[req]? = some r ∧
      match route opts r.location with
      | .reject => False
      | .adapter _ _ _ _ => ∃ w, w ∉ s.terminated ∧ Acknowledged s.log w r.region
      | .legacy url => ∃ w region, Origin opts s url region ∧ Booted s.log w none region ∧
          (w ∈ s.terminated → (w, .got .error) ∈ s.log) := by
  have hroles := Roles.of_run h
  obtain ⟨r, hr, hserved⟩ := (Provenance.of_run h).granted req hreq
  refine ⟨r, hr, ?_⟩
  cases hserved with
  | adapter key url target app e hroute hk hack =>
    rw [hroute]
    refine ⟨e.worker, fun hterm => ?_, hack⟩
    exact (hroles.terminated _ hterm).2.2 key (.entry e hk rfl)
  | legacy url w region hroute horigin hboot =>
    rw [hroute]
    exact ⟨w, region, horigin, hboot, terminated_error h w⟩

theorem success_acknowledged_replaced : ∃ s,
    Run (step (oneAdapter 1 (by decide))) Always State.initial replaceRun s ∧
    (1, true) ∈ s.signals ∧ ∃ w, w ∉ s.terminated ∧ Acknowledged s.log w ⟨1, 0⟩ := by
  obtain ⟨s, hrun, hp⟩ := Run.exists_of_execute (show (execute (step (oneAdapter 1 (by decide)))
    Always State.initial replaceRun).map (fun s => decide ((1, true) ∈ s.signals ∧
      s.requests[1]? = some ⟨"node-b", ⟨1, 0⟩⟩)) = some true by decide +kernel)
  obtain ⟨hsig, hreq⟩ := of_decide_eq_true hp
  obtain ⟨r, hr, hserved⟩ := success_acknowledged hrun 1 hsig
  rw [hreq] at hr
  obtain rfl := Option.some.inj hr
  have hroute : route (oneAdapter 1 (by decide)) "node-b" =
      .adapter "iroh-v1" "adapter.js" "node-b" false := by decide +kernel
  rw [hroute] at hserved
  exact ⟨s, hrun, hsig, hserved⟩

/-! ## A worker that is running already -/

/-- The region a message hands over. -/
def Msg.hands : Msg → Option Region
  | .init _ region => some region
  | .register _ _ region => some region
  | .unregister _ _ => none

/-- What was acknowledged was handed over. -/
theorem Acknowledged.handed {log : List (WorkerId × Exchange)} {w : WorkerId} {region : Region}
    (h : Acknowledged log w region) : ∃ m, (w, .sent m) ∈ log ∧ m.hands = some region := by
  rcases h with ⟨target, before, after, rfl, pre, mid, rfl, -⟩ | ⟨id, target, before, after, rfl, hmem⟩
  · exact ⟨.init target region, by simp, rfl⟩
  · exact ⟨.register id target region, List.mem_append_left _ hmem, rfl⟩

/-- Every location is served by one worker. -/
def oneWorker : Options where
  resolveWorkerUrl _ := some "worker.js"
  resolveAdapterTarget := none
  irohAdapterWorker := false
  resolveIrohTarget := none
  pageUrl := "page"
  maxTargetsPerAdapter := 32
  max_pos := by decide

/-- A second request for a running worker, with another buffer. -/
def reuseRun : List Event :=
  [.ensure "worker:a" ⟨0, 0⟩, .legacySpawned "worker.js" true, .legacyReply 1 true,
    .ensure "worker:a" ⟨1, 0⟩]

/-- The second request is granted, but its region was handed to nobody. -/
theorem reuse_not_handed : ∃ s, Run (step oneWorker) Always State.initial reuseRun s ∧
    (1, true) ∈ s.signals ∧ s.requests[1]? = some ⟨"worker:a", ⟨1, 0⟩⟩ ∧
    ¬∃ w, w ∉ s.terminated ∧ Acknowledged s.log w ⟨1, 0⟩ := by
  obtain ⟨s, hrun, hp⟩ := Run.exists_of_execute (show (execute (step oneWorker)
    Always State.initial reuseRun).map (fun s => decide ((1, true) ∈ s.signals ∧
      s.requests[1]? = some ⟨"worker:a", ⟨1, 0⟩⟩ ∧
      s.log = [(1, .sent (.init none ⟨0, 0⟩)), (1, .got .ready)])) = some true by decide +kernel)
  obtain ⟨hsig, hreq, hlog⟩ := of_decide_eq_true hp
  refine ⟨s, hrun, hsig, hreq, ?_⟩
  rintro ⟨w, -, hack⟩
  obtain ⟨m, hm, hands⟩ := hack.handed
  rw [hlog] at hm
  simp only [List.mem_cons, Prod.mk.injEq, Exchange.sent.injEq, reduceCtorEq, and_false,
    List.not_mem_nil, or_false] at hm
  rw [hm.2] at hands
  cases hands

end Haybarn.Bridge
