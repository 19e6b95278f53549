import Haybarn.Bridge.Ready

/-!
# The policy for application transports

A location that begins with `iroh://` or `httpi://` never names a script: it is either turned
into a canonical target, by the application's own resolver, and handed to the application's own
worker, or refused. `CanonicalTarget` says what a canonical target is, apart from how the bridge
tests it (`canonicalBuiltInIrohTarget_iff`), and `route_iroh` says where such a location can go.

`Aimed` follows the target from the request to the message that carries it, through boots and
queued registrations, so that `location_policy` is about every message of every run: what is
posted for such a location carries the target its route admits. Besides, a worker is told to
unregister targets of earlier requests that stand in the way, which may have the other scheme
(`unregister_other_scheme`).
-/

namespace Haybarn.Bridge

open Haybarn.Lib

/-! ## Canonical targets -/

def IsEndpointId (id : List Char) : Prop := id.length = 64 ∧ ∀ c ∈ id, isHexDigit c = true

def IsSegment (seg : List Char) : Prop := seg ≠ [] ∧ ∀ c ∈ seg, isPathChar c = true

/-- An endpoint, or an endpoint and a path on it. -/
inductive CanonicalTarget : List Char → Prop
  | iroh (id : List Char) : IsEndpointId id → CanonicalTarget ("iroh://".toList ++ id)
  | httpi (id : List Char) (segs : List (List Char)) : IsEndpointId id →
      (∀ seg ∈ segs, IsSegment seg) →
      CanonicalTarget ("httpi://".toList ++ (id ++ segs.flatMap ('/' :: ·)))

theorem isEndpointId_iff {id : List Char} : isEndpointId id = true ↔ IsEndpointId id := by
  unfold isEndpointId IsEndpointId
  rw [Bool.and_eq_true, beq_iff_eq, List.all_eq_true]

/-- Segments, each after a separator, are the segments with separators between them, after
one. -/
theorem flatMap_cons_eq {α : Type} (sep : α) {segs : List (List α)} (h : segs ≠ []) :
    segs.flatMap (sep :: ·) = sep :: [sep].intercalate segs := by
  induction segs with
  | nil => exact absurd rfl h
  | cons seg rest ih =>
    cases rest with
    | nil => simp
    | cons next more =>
      rw [List.flatMap_cons, ih (List.cons_ne_nil _ _), List.intercalate_cons_cons]
      simp

theorem all_isSegment_iff {segs : List (List Char)} :
    (segs.all fun seg => !seg.isEmpty && seg.all isPathChar) = true ↔
      ∀ seg ∈ segs, IsSegment seg := by
  rw [List.all_eq_true]
  refine forall₂_congr fun seg _ => ?_
  unfold IsSegment
  rw [Bool.and_eq_true, Bool.not_eq_true', List.isEmpty_eq_false_iff, List.all_eq_true]

theorem isHttpiPath_iff {cs : List Char} : isHttpiPath cs = true ↔
    ∃ segs : List (List Char), (∀ seg ∈ segs, IsSegment seg) ∧ cs = segs.flatMap ('/' :: ·) := by
  constructor
  · intro h
    unfold isHttpiPath at h
    split at h
    next => exact ⟨[], nofun, rfl⟩
    next rest =>
      refine ⟨rest.splitOn '/', all_isSegment_iff.mp h, ?_⟩
      rw [flatMap_cons_eq '/' (List.splitOn_ne_nil _ _), List.intercalate_splitOn]
    next => cases h
  · rintro ⟨segs, hsegs, rfl⟩
    by_cases hne : segs = []
    · subst hne
      rfl
    · have hslash : ∀ seg ∈ segs, '/' ∉ seg := by
        intro seg hseg hmem
        have hpath := (hsegs seg hseg).2 '/' hmem
        exact absurd hpath (by decide)
      rw [flatMap_cons_eq '/' hne]
      show (List.all _ _) = true
      rw [List.splitOn_intercalate '/' hslash hne]
      exact all_isSegment_iff.mpr hsegs

theorem canonicalIrohTarget_iff {value w : String} : canonicalIrohTarget value = some w ↔
    w = value ∧ ∃ id, IsEndpointId id ∧ value.toList = "iroh://".toList ++ id := by
  unfold canonicalIrohTarget
  rw [Option.ite_none_right_eq_some, Bool.and_eq_true, List.isPrefixOf_iff_prefix,
    isEndpointId_iff, Option.some.injEq]
  constructor
  · rintro ⟨⟨⟨id, hid⟩, hend⟩, rfl⟩
    rw [← hid, show List.drop 7 ("iroh://".toList ++ id) = id from rfl] at hend
    exact ⟨rfl, id, hend, hid.symm⟩
  · rintro ⟨rfl, id, hid, hvalue⟩
    rw [hvalue]
    exact ⟨⟨List.prefix_append _ _, hid⟩, rfl⟩

theorem canonicalHttpiTarget_iff {value w : String} : canonicalHttpiTarget value = some w ↔
    w = value ∧ ∃ (id : List Char) (segs : List (List Char)), IsEndpointId id ∧
      (∀ seg ∈ segs, IsSegment seg) ∧
      value.toList = "httpi://".toList ++ (id ++ segs.flatMap ('/' :: ·)) := by
  unfold canonicalHttpiTarget
  rw [Option.ite_none_right_eq_some, Bool.and_eq_true, Bool.and_eq_true,
    List.isPrefixOf_iff_prefix, isEndpointId_iff, isHttpiPath_iff, Option.some.injEq]
  constructor
  · rintro ⟨⟨⟨⟨rest, hrest⟩, hend⟩, segs, hsegs, hpath⟩, rfl⟩
    rw [← hrest, show List.drop 8 ("httpi://".toList ++ rest) = rest from rfl] at hend
    rw [← hrest, show List.drop 72 ("httpi://".toList ++ rest) = rest.drop 64 from rfl] at hpath
    refine ⟨rfl, rest.take 64, segs, hend, hsegs, ?_⟩
    rw [← hpath, List.take_append_drop, hrest]
  · rintro ⟨rfl, id, segs, hid, hsegs, hvalue⟩
    rw [hvalue]
    have htake : (List.drop 8 ("httpi://".toList ++ (id ++ segs.flatMap ('/' :: ·)))).take 64 =
        id := by
      show (id ++ _).take 64 = id
      rw [← hid.1, List.take_left]
    have hdrop : List.drop 72 ("httpi://".toList ++ (id ++ segs.flatMap ('/' :: ·))) =
        segs.flatMap ('/' :: ·) := by
      show (id ++ _).drop 64 = _
      rw [← hid.1, List.drop_left]
    rw [htake, hdrop]
    exact ⟨⟨⟨List.prefix_append _ _, hid⟩, segs, hsegs, rfl⟩, rfl⟩

/-- The test of the bridge accepts exactly the canonical targets, and returns them as they
are. -/
theorem canonicalBuiltInIrohTarget_iff {value w : String} :
    canonicalBuiltInIrohTarget value = some w ↔ w = value ∧ CanonicalTarget value.toList := by
  unfold canonicalBuiltInIrohTarget
  rw [Option.orElse_eq_orElse, Option.orElse_eq_or, Option.or_eq_some_iff,
    canonicalIrohTarget_iff, canonicalHttpiTarget_iff]
  constructor
  · rintro (⟨rfl, id, hid, hvalue⟩ | ⟨-, rfl, id, segs, hid, hsegs, hvalue⟩)
    · exact ⟨rfl, hvalue ▸ .iroh id hid⟩
    · exact ⟨rfl, hvalue ▸ .httpi id segs hid hsegs⟩
  · rintro ⟨rfl, hcanonical⟩
    generalize hvalue : w.toList = cs at hcanonical
    cases hcanonical with
    | iroh id hid => exact .inl ⟨rfl, id, hid, rfl⟩
    | httpi id segs hid hsegs =>
      refine .inr ⟨?_, rfl, id, segs, hid, hsegs, rfl⟩
      unfold canonicalIrohTarget
      rw [hvalue]
      rfl

/-! ## The route of a location -/

/-- `isIrohRequest || isHttpiRequest` -/
def isIroh (location : String) : Bool :=
  "iroh://".toList.isPrefixOf location.toLower.toList ||
    "httpi://".toList.isPrefixOf location.toLower.toList

/-- What the bridge may make of a location: a canonical target of the same scheme. -/
structure Admitted (location target : String) : Prop where
  canonical : CanonicalTarget target.toList
  sameScheme : scheme target = scheme location

variable {opts : Options} {s s' : State} {ev : Event}

/-- A location of an application transport is refused or goes to the application's worker,
whatever the resolver says. -/
theorem route_iroh {location : String} (h : isIroh location = true) :
    route opts location = .reject ∨ ∃ target, Admitted location target ∧
      route opts location = .adapter appAdapterKey opts.pageUrl target true := by
  have hroute : route opts location = routeIroh opts location := if_pos h
  rw [hroute]
  unfold routeIroh
  split
  next => exact .inl rfl
  next canonical hcanonical =>
    obtain ⟨rfl, -⟩ := canonicalBuiltInIrohTarget_iff.mp hcanonical
    split
    · dsimp only
      split
      next => exact .inl rfl
      next resolved hresolved =>
        obtain ⟨answer, -, hanswer⟩ := Option.bind_eq_some_iff.mp hresolved
        obtain ⟨rfl, htarget⟩ := canonicalBuiltInIrohTarget_iff.mp hanswer
        split
        next hboth =>
          rw [Bool.and_eq_true, decide_eq_true_eq] at hboth
          exact .inr ⟨resolved, ⟨htarget, hboth.1⟩, rfl⟩
        next => exact .inl rfl
    · exact .inl rfl

/-- A refused request: it is recorded and told so, and nothing else happens. -/
theorem ensure_of_reject {location : String} (region : Region)
    (h : route opts location = .reject) : ensure opts s location region =
      { s with requests := s.requests ++ [{ location, region }]
               signals := s.signals ++ [(s.requests.length, false)] } := by
  unfold ensure
  dsimp only
  rw [h]
  rfl

/-! ## Targets on their way -/

/-- Request `req` asks adapter `key` for the target and the region. -/
def Aims (opts : Options) (s : State) (req : Nat) (key target : String) (region : Region) : Prop :=
  ∃ location url app, s.requests[req]? = some ⟨location, region⟩ ∧
    route opts location = .adapter key url target app

/-- Every target in a state is the one that the request it is there for was routed to. -/
structure Aimed (opts : Options) (s : State) : Prop where
  boots : ∀ key boot, s.pendingAdapters key = some boot →
    (∃ location, s.requests[boot.req]? = some ⟨location, boot.firstRegion.region⟩ ∧
      route opts location = .adapter key boot.url boot.firstRegion.target boot.app) ∧
    ∀ j ∈ boot.joined, Aims opts s j.req key j.target j.region
  operations : ∀ key e, s.adapters key = some e →
    ∀ op ∈ e.operations, Aims opts s op.req key op.target op.region
  regions : ∀ key e, s.adapters key = some e →
    ∀ r ∈ e.regions, ∃ req, Aims opts s req key r.target r.region
  pending : ∀ url boot, s.pending url = some boot →
    boot.reqs ≠ [] ∧ ∀ req ∈ boot.reqs, AsksUrl opts s req url

theorem Aimed.initial : Aimed opts State.initial where
  boots _ _ h := by cases h
  operations _ _ h := by cases h
  regions _ _ h := by cases h
  pending _ _ h := by cases h

theorem Aims.step {req : Nat} {key target : String} {region : Region}
    (ha : Aims opts s req key target region) (h : step opts s ev = some s') :
    Aims opts s' req key target region := by
  obtain ⟨location, url, app, hr, hroute⟩ := ha
  exact ⟨location, url, app, step_requests_get h hr, hroute⟩

theorem Aimed.step_boots (ha : Aimed opts s) (h : step opts s ev = some s') {key : String}
    {boot : AdapterBoot} (hb : s'.pendingAdapters key = some boot) :
    (∃ location, s'.requests[boot.req]? = some ⟨location, boot.firstRegion.region⟩ ∧
      route opts location = .adapter key boot.url boot.firstRegion.target boot.app) ∧
    ∀ j ∈ boot.joined, Aims opts s' j.req key j.target j.region := by
  have kept : ∀ old, s.pendingAdapters key = some old →
      (∃ location, s'.requests[old.req]? = some ⟨location, old.firstRegion.region⟩ ∧
        route opts location = .adapter key old.url old.firstRegion.target old.app) ∧
      ∀ j ∈ old.joined, Aims opts s' j.req key j.target j.region := by
    intro old hold
    obtain ⟨⟨location, hreq, hroute⟩, hjoined⟩ := ha.boots key old hold
    exact ⟨⟨location, step_requests_get h hreq, hroute⟩, fun j hj => (hjoined j hj).step h⟩
  cases Bridge.step_boots h hb with
  | same _ _ hold => exact kept boot hold
  | joined location region url target app old hold hroute =>
    obtain ⟨hfirst, hjoined⟩ := kept old hold
    refine ⟨hfirst, fun j hj => ?_⟩
    obtain hj | hj := List.mem_append.mp hj
    · exact hjoined j hj
    · obtain rfl := List.mem_singleton.mp hj
      exact ⟨location, url, app, ensure_requests_get h, hroute⟩
  | begun location region url target app _ _ hroute =>
    refine ⟨⟨location, ensure_requests_get h, hroute⟩, fun j hj => ?_⟩
    cases hj
  | spawned old hold => exact kept old hold

theorem Aimed.step_operations (ha : Aimed opts s) (hap : Apart s) (h : step opts s ev = some s')
    {key : String} {e' : AdapterEntry} (he : s'.adapters key = some e') {op : Operation}
    (hop : op ∈ e'.operations) : Aims opts s' op.req key op.target op.region := by
  have hc := step_changes hap h
  obtain hk | ⟨e, hk⟩ := Option.eq_none_or_eq_some (s.adapters key)
  · obtain hnone | ⟨boot, w, e₁, rfl, hb, -, he₁, hfresh⟩ := hc.fresh key hk
    · rw [hnone] at he
      cases he
    · rw [he₁] at he
      obtain rfl := Option.some.inj he
      obtain ⟨-, j, hj, hreq, htarget, hregion⟩ := hfresh.operations op hop
      rw [hreq, htarget, hregion]
      exact ((ha.boots key boot hb).2 j hj).step h
  · obtain ⟨e₁, he₁, hstep⟩ := hc.kept key e hk
    rw [he₁] at he
    obtain rfl := Option.some.inj he
    obtain ⟨old, hold, hreq, htarget, hregion⟩ | ⟨location, url, app, rfl, hreq, hroute⟩ :=
      hstep.operation hop
    · rw [hreq, htarget, hregion]
      exact (ha.operations key e hk old hold).step h
    · rw [hreq]
      exact ⟨location, url, app, ensure_requests_get h, hroute⟩

theorem Aimed.step_regions (ha : Aimed opts s) (hi : Inv opts s) (h : step opts s ev = some s')
    {key : String} {e' : AdapterEntry} (he : s'.adapters key = some e') {r : TargetRegion}
    (hr : r ∈ e'.regions) : ∃ req, Aims opts s' req key r.target r.region := by
  have hc := step_changes hi.apart h
  obtain hk | ⟨e, hk⟩ := Option.eq_none_or_eq_some (s.adapters key)
  · obtain hnone | ⟨boot, w, e₁, rfl, hb, -, he₁, hfresh⟩ := hc.fresh key hk
    · rw [hnone] at he
      cases he
    · rw [he₁] at he
      obtain rfl := Option.some.inj he
      rw [hfresh.regions] at hr
      obtain rfl := List.mem_singleton.mp hr
      obtain ⟨location, hreq, hroute⟩ := (ha.boots key boot hb).1
      exact ⟨boot.req, location, boot.url, boot.app, step_requests_get h hreq, hroute⟩
  · obtain ⟨e₁, he₁, hstep⟩ := hc.kept key e hk
    rw [he₁] at he
    obtain rfl := Option.some.inj he
    obtain ⟨old, hold, htarget, hregion⟩ | ⟨id, i, op, rfl, hop, hs⟩ := hstep.region hr
    · rw [htarget, hregion]
      obtain ⟨req, haims⟩ := ha.regions key e hk old hold
      exact ⟨req, haims.step h⟩
    · obtain ⟨-, -, htarget, hregion⟩ := (hi.entries key e hk).awaiting i op id r hop hs
      rw [htarget, hregion]
      exact ⟨op.req, (ha.operations key e hk op (List.mem_of_getElem? hop)).step h⟩

theorem Aimed.step_pending (ha : Aimed opts s) (h : step opts s ev = some s') {url : String}
    {boot : LegacyBoot} (hb : s'.pending url = some boot) :
    boot.reqs ≠ [] ∧ ∀ req ∈ boot.reqs, AsksUrl opts s' req url := by
  have kept : ∀ old, s.pending url = some old →
      old.reqs ≠ [] ∧ ∀ req ∈ old.reqs, AsksUrl opts s' req url := by
    intro old hold
    obtain ⟨hne, hreqs⟩ := ha.pending url old hold
    exact ⟨hne, fun req hreq => (hreqs req hreq).step h⟩
  cases (step_outer h).boot hb with
  | same _ _ hold => exact kept boot hold
  | joined location region old hold hroute =>
    obtain ⟨-, hreqs⟩ := kept old hold
    refine ⟨List.append_ne_nil_of_right_ne_nil _ (List.cons_ne_nil _ _), fun req hreq => ?_⟩
    obtain hreq | hreq := List.mem_append.mp hreq
    · exact hreqs req hreq
    · obtain rfl := List.mem_singleton.mp hreq
      exact ⟨_, ensure_requests_get h, hroute⟩
  | begun location region _ hroute =>
    refine ⟨List.cons_ne_nil _ _, fun req hreq => ?_⟩
    obtain rfl := List.mem_singleton.mp hreq
    exact ⟨_, ensure_requests_get h, hroute⟩
  | spawned old hold => exact kept old hold

theorem Aimed.step (ha : Aimed opts s) (hi : Inv opts s) (h : step opts s ev = some s') :
    Aimed opts s' where
  boots _ _ hb := ha.step_boots h hb
  operations _ _ he _ hop := ha.step_operations hi.apart h he hop
  regions _ _ he _ hr := ha.step_regions hi h he hr
  pending _ _ hb := ha.step_pending h hb

theorem Aimed.of_run {es : List Event} (h : Run (Bridge.step opts) Always State.initial es s) :
    Inv opts s ∧ Aimed opts s :=
  h.invariant (P := fun s => Inv opts s ∧ Aimed opts s) ⟨.initial, .initial⟩
    fun _ _ _ ⟨hi, ha⟩ _ hs => ⟨hi.step hs, ha.step hi hs⟩

/-! ## What is done for a request -/

/-- Whatever is displaced was registered. -/
theorem displaced_mem {max : Nat} {regions gone : List TargetRegion} {target : String}
    {region : Region} {first : Region → Lanes}
    (h : displaced max regions target region first = some gone) : ∀ v ∈ gone, v ∈ regions := by
  unfold displaced at h
  split at h
  · obtain ⟨v, hv, rfl⟩ := Option.map_eq_some_iff.mp h
    intro r hr
    obtain rfl := List.mem_singleton.mp hr
    exact victim_mem hv
  · obtain rfl := Option.some.inj h
    intro r hr
    obtain hc | ⟨hmem, -⟩ := mem_conflicts.mp hr
    · exact (current_some hc).1
    · exact hmem

/-- The requests that an event does something for. -/
def State.serves (s : State) : Event → List Nat
  | .ensure _ _ => [s.requests.length]
  | .spawned key _ => ((s.pendingAdapters key).map (·.req)).toList
  | .begin key i _ _ => ((s.adapters key).bind fun e => e.operations[i]?.map (·.req)).toList
  | .legacySpawned url _ => ((s.pending url).map (·.reqs)).getD []
  | _ => []

/-- What a worker may be told for a target of adapter `key`: to serve it, or to give up a
target that an earlier request had it serve. -/
inductive Tells (opts : Options) (s : State) (key target : String) (region : Region) : Msg → Prop
  | init : Tells opts s key target region (.init (some target) region)
  | register (id : Nat) : Tells opts s key target region (.register id target region)
  | unregister (req : Nat) (old : String) (at_ : Region) : Aims opts s req key old at_ →
      Tells opts s key target region (.unregister old at_.offset)

/-- The entries that an event has added to the log. -/
def State.added (s s' : State) : List (WorkerId × Exchange) := s'.log.drop s.log.length

/-- A message that an event posts is for the requests that the event serves: either they name a
legacy worker, or what is told is about the target they were routed to. -/
theorem posted_for (ha : Aimed opts s) {new : List (WorkerId × Exchange)}
    (h : Logged opts s ev new) {w : WorkerId} {m : Msg} (hm : (w, .sent m) ∈ new) :
    s.serves ev ≠ [] ∧ ∀ req ∈ s.serves ev, (∃ url, AsksUrl opts s req url) ∨
      ∃ key target region, Aims opts s req key target region ∧
        Tells opts s key target region m := by
  cases h with
  | nothing => cases hm
  | bootInit key boot hb _ =>
    obtain ⟨⟨location, hreq, hroute⟩, -⟩ := ha.boots key boot hb
    have hserves : s.serves (.spawned key true) = [boot.req] := by
      rw [State.serves, hb]
      rfl
    rw [hserves]
    refine ⟨List.cons_ne_nil _ _, fun req hmem => .inr ?_⟩
    obtain rfl := List.mem_singleton.mp hmem
    obtain ⟨-, hsent⟩ := Prod.mk.inj (List.mem_singleton.mp hm)
    obtain rfl := Exchange.sent.inj hsent
    exact ⟨key, _, _, ⟨location, boot.url, boot.app, hreq, hroute⟩, .init⟩
  | bootReply =>
    obtain ⟨-, hsent⟩ := Prod.mk.inj (List.mem_singleton.mp hm)
    cases hsent
  | registering key i first second e op gone hk hop _ _ _ hgone =>
    have hserves : s.serves (.begin key i first second) = [op.req] := by
      rw [State.serves, hk, Option.bind_some, hop]
      rfl
    rw [hserves]
    refine ⟨List.cons_ne_nil _ _, fun req hmem => .inr ?_⟩
    obtain rfl := List.mem_singleton.mp hmem
    refine ⟨key, _, _, ha.operations key e hk op (List.mem_of_getElem? hop), ?_⟩
    obtain ⟨m', hm', he⟩ := List.mem_map.mp hm
    obtain ⟨-, hsent⟩ := Prod.mk.inj he
    obtain rfl := Exchange.sent.inj hsent
    obtain hold | hnew := List.mem_append.mp hm'
    · -- a region in the way: an earlier request had it registered
      obtain ⟨v, hv, rfl⟩ := List.mem_map.mp hold
      obtain ⟨req, haims⟩ := ha.regions key e hk v (displaced_mem hgone v hv)
      exact .unregister req _ _ haims
    · obtain rfl := List.mem_singleton.mp hnew
      exact .register _
  | registrationReply =>
    obtain ⟨-, hsent⟩ := Prod.mk.inj (List.mem_singleton.mp hm)
    cases hsent
  | legacyInit url boot hb _ =>
    obtain ⟨hne, hreqs⟩ := ha.pending url boot hb
    have hserves : s.serves (.legacySpawned url true) = boot.reqs := by
      rw [State.serves, hb]
      rfl
    rw [hserves]
    exact ⟨hne, fun req hreq => .inl ⟨url, hreqs req hreq⟩⟩
  | legacyReply =>
    obtain ⟨-, hsent⟩ := Prod.mk.inj (List.mem_singleton.mp hm)
    cases hsent

theorem State.added_eq {new : List (WorkerId × Exchange)} (h : s'.log = s.log ++ new) :
    s.added s' = new := by
  unfold State.added
  rw [h, List.drop_left]

/-- A location of an application transport has no worker of its own. -/
theorem isIroh_route {location : String} (h : isIroh location = true) :
    (∀ url, route opts location ≠ .legacy url) ∧
      ∀ key url target, route opts location ≠ .adapter key url target false := by
  obtain hroute | ⟨target, -, hroute⟩ := @route_iroh opts _ h
  · rw [hroute]
    refine ⟨fun url he => ?_, fun key url target he => ?_⟩
    · cases he
    · cases he
  · rw [hroute]
    refine ⟨fun url he => ?_, fun key url target he => ?_⟩
    · cases he
    · cases he

/-- A worker is spawned for the requests that the event serves, and for none of an application
transport. -/
theorem spawned_for (ha : Aimed opts s) (h : step opts s ev = some s')
    (hw : s'.nextWorker ≠ s.nextWorker) : s.serves ev ≠ [] ∧ ∀ req ∈ s.serves ev,
      ∃ r, s.requests[req]? = some r ∧ isIroh r.location = false := by
  have hout := step_outer h
  generalize ho : s'.outer = o at hout
  have hnext : o.nextWorker ≠ s.nextWorker := by
    rw [← ho]
    exact hw
  cases hout with
  | adapterSpawned key =>
    obtain hnone | ⟨boot, hb⟩ := Option.eq_none_or_eq_some (s.pendingAdapters key)
    · rw [step, hnone] at h
      cases h
    · obtain ⟨⟨location, hreq, hroute⟩, -⟩ := ha.boots key boot hb
      have happ : boot.app = false := by
        by_contra happ
        rw [Bool.not_eq_false] at happ
        rw [spawned_nextWorker h hb, if_pos happ] at hw
        exact hw rfl
      rw [happ] at hroute
      rw [State.serves, hb]
      refine ⟨List.cons_ne_nil _ _, fun req hmem => ?_⟩
      obtain rfl := List.mem_singleton.mp hmem
      refine ⟨_, hreq, ?_⟩
      · by_contra hiroh
        rw [Bool.not_eq_false] at hiroh
        exact (isIroh_route hiroh).2 _ _ _ hroute
  | legacySpawned url boot hb _ =>
    obtain ⟨hne, hreqs⟩ := ha.pending url boot hb
    rw [State.serves, hb]
    refine ⟨hne, fun req hmem => ?_⟩
    obtain ⟨r, hr, hroute⟩ := hreqs req hmem
    refine ⟨r, hr, ?_⟩
    by_contra hiroh
    rw [Bool.not_eq_false] at hiroh
    exact (isIroh_route hiroh).1 _ hroute
  | _ => exact absurd rfl hnext

/-- The requests that an event serves: the one it brings, or ones that have been routed. -/
theorem served (ha : Aimed opts s) {req : Nat} (hreq : req ∈ s.serves ev) :
    (∃ location region, ev = .ensure location region ∧ req = s.requests.length) ∨
      (∃ url, AsksUrl opts s req url) ∨
      ∃ key target region, Aims opts s req key target region := by
  cases ev with
  | ensure location region => exact .inl ⟨location, region, rfl, List.mem_singleton.mp hreq⟩
  | spawned key ok =>
    obtain ⟨boot, hb, rfl⟩ := Option.map_eq_some_iff.mp (Option.mem_toList.mp hreq)
    obtain ⟨⟨location, hget, hroute⟩, -⟩ := ha.boots key boot hb
    exact .inr (.inr ⟨key, _, _, location, boot.url, boot.app, hget, hroute⟩)
  | begin key i first second =>
    obtain ⟨e, hk, hop⟩ := Option.bind_eq_some_iff.mp (Option.mem_toList.mp hreq)
    obtain ⟨op, hget, rfl⟩ := Option.map_eq_some_iff.mp hop
    exact .inr (.inr ⟨key, _, _, ha.operations key e hk op (List.mem_of_getElem? hget)⟩)
  | legacySpawned url ok =>
    rw [State.serves] at hreq
    obtain hnone | ⟨boot, hb⟩ := Option.eq_none_or_eq_some (s.pending url)
    · rw [hnone] at hreq
      cases hreq
    · rw [hb] at hreq
      exact .inr (.inl ⟨url, (ha.pending url boot hb).2 req hreq⟩)
  | bootReply => cases hreq
  | registrationReply => cases hreq
  | timeout => cases hreq
  | legacyReply => cases hreq

/-! ## The policy -/

/-- What is done for a request of an application transport: it is refused, and nothing else
happens, or its own target is what the application's adapter is told about. -/
inductive Handled (opts : Options) (s s' : State) (req : Nat) (r : Request) : Prop
  | refused : route opts r.location = .reject → s' = { s with
      requests := s.requests ++ [r], signals := s.signals ++ [(req, false)] } →
      Handled opts s s' req r
  | admitted (target : String) : Admitted r.location target →
      route opts r.location = .adapter appAdapterKey opts.pageUrl target true →
      s'.nextWorker = s.nextWorker →
      (∀ w m, (w, .sent m) ∈ s.added s' → Tells opts s appAdapterKey target r.region m) →
      Handled opts s s' req r

theorem handled (ha : Aimed opts s) (h : step opts s ev = some s') {req : Nat} {r : Request}
    (hreq : req ∈ s.serves ev) (hget : s'.requests[req]? = some r)
    (hiroh : isIroh r.location = true) : Handled opts s s' req r := by
  obtain ⟨new, hlogged, hlog⟩ := step_log h
  have hadded := State.added_eq hlog
  have hnext : s'.nextWorker = s.nextWorker := by
    by_contra hne
    obtain ⟨r', hr', hnot⟩ := (spawned_for ha h hne).2 req hreq
    rw [step_requests_get h hr'] at hget
    obtain rfl := Option.some.inj hget
    rw [hiroh] at hnot
    cases hnot
  obtain ⟨location, region, rfl, rfl⟩ | ⟨url, r', hr', hroute⟩ |
    ⟨key, target, region, location, url, app, hr', hroute⟩ := served ha hreq
  · -- the request itself: nothing is posted before its worker is there
    rw [ensure_requests_get h] at hget
    obtain rfl := Option.some.inj hget
    obtain hroute | ⟨target, hadmitted, hroute⟩ := @route_iroh opts _ hiroh
    · refine .refused hroute ?_
      obtain rfl := Option.some.inj h
      exact ensure_of_reject region hroute
    · refine .admitted target hadmitted hroute hnext fun w m hm => ?_
      rw [hadded] at hm
      cases hlogged
      cases hm
  · rw [step_requests_get h hr'] at hget
    obtain rfl := Option.some.inj hget
    exact absurd hroute ((isIroh_route hiroh).1 url)
  · rw [step_requests_get h hr'] at hget
    obtain rfl := Option.some.inj hget
    obtain hreject | ⟨target', hadmitted, hadapter⟩ := @route_iroh opts _ hiroh
    · rw [hreject] at hroute
      cases hroute
    · refine .admitted target' hadmitted hadapter hnext fun w m hm => ?_
      rw [hadded] at hm
      obtain hlegacy | ⟨key', told, region', haims, htells⟩ := (posted_for ha hlogged hm).2 req hreq
      · obtain ⟨url', r', hr'', hlegacy⟩ := hlegacy
        rw [hr'] at hr''
        obtain rfl := Option.some.inj hr''
        exact absurd hlegacy ((isIroh_route hiroh).1 url')
      · obtain ⟨location', url', app', hr'', hroute'⟩ := haims
        rw [hr'] at hr''
        obtain ⟨rfl, rfl⟩ := Request.mk.inj (Option.some.inj hr'')
        rw [hadapter] at hroute'
        obtain ⟨rfl, -, rfl, -⟩ := Route.adapter.inj hroute'
        exact htells

/-- **The location policy.** In every run, whatever the resolvers answer: an event that posts a
message or spawns a worker serves some request, and for a request whose location begins with
`iroh://` or `httpi://`, in any case, no worker is spawned, and either it is refused with
nothing posted, or the adapter is told to serve one canonical target of the location's own
scheme (and to give up targets of earlier requests that stand in its way). -/
theorem location_policy {es : List Event}
    (hrun : Run (Bridge.step opts) Always State.initial es s)
    (h : Bridge.step opts s ev = some s') :
    (∀ w m, (w, .sent m) ∈ s.added s' → s.serves ev ≠ []) ∧
      (s'.nextWorker ≠ s.nextWorker → s.serves ev ≠ []) ∧
      ∀ req ∈ s.serves ev, ∃ r, s'.requests[req]? = some r ∧
        (isIroh r.location = true → Handled opts s s' req r) := by
  have ha := (Aimed.of_run hrun).2
  refine ⟨fun w m hm => ?_, fun hne => (spawned_for ha h hne).1, fun req hreq => ?_⟩
  · obtain ⟨new, hlogged, hlog⟩ := step_log h
    rw [State.added_eq hlog] at hm
    exact (posted_for ha hlogged hm).1
  · have hr : ∃ r, s'.requests[req]? = some r := by
      obtain ⟨location, region, rfl, rfl⟩ | ⟨url, r, hr, -⟩ |
        ⟨key, target, region, location, url, app, hr, -⟩ := served ha hreq
      · exact ⟨_, ensure_requests_get h⟩
      · exact ⟨r, step_requests_get h hr⟩
      · exact ⟨_, step_requests_get h hr⟩
    obtain ⟨r, hr⟩ := hr
    exact ⟨r, hr, fun hiroh => handled ha h hreq hr hiroh⟩

/-- The application has its own adapter and resolves nothing itself. -/
def appTransport : Options where
  resolveWorkerUrl := some
  resolveAdapterTarget := none
  irohAdapterWorker := true
  resolveIrohTarget := none
  pageUrl := "page"
  maxTargetsPerAdapter := 2
  max_pos := by decide

def irohLocation : String :=
  "iroh://0123456789abcdef0123456789abcdef0123456789abcdef0123456789abcdef"

def httpiLocation : String :=
  "httpi://0123456789abcdef0123456789abcdef0123456789abcdef0123456789abcdef/a"

/-- The adapter boots for one location; another is asked for on the same channel. -/
def transportRun : List Event :=
  [.ensure irohLocation ⟨0, 0⟩, .spawned appAdapterKey true, .bootReply appAdapterKey true,
    .ensure httpiLocation ⟨0, 0⟩]

/-- The queued registration begins, and the channel is idle. -/
def transportBegin : Event :=
  .begin appAdapterKey 0 (fun _ => freeSlot) (fun _ => freeSlot)

theorem location_policy_transport : ∃ s s',
    Run (Bridge.step appTransport) Always State.initial transportRun s ∧
    Bridge.step appTransport s transportBegin = some s' ∧ s.serves transportBegin = [1] ∧
    s'.requests[1]? = some ⟨httpiLocation, ⟨0, 0⟩⟩ ∧
    Handled appTransport s s' 1 ⟨httpiLocation, ⟨0, 0⟩⟩ := by
  obtain ⟨s, hrun, hp⟩ := Run.exists_of_execute (show (execute (Bridge.step appTransport)
    Always State.initial transportRun).map (fun s => (decide (s.serves transportBegin = [1]) &&
      (Bridge.step appTransport s transportBegin).any fun s' =>
        decide (s'.requests[1]? = some ⟨httpiLocation, ⟨0, 0⟩⟩))) = some true by decide +kernel)
  rw [Bool.and_eq_true, decide_eq_true_eq, Option.any_eq_true] at hp
  obtain ⟨hserves, s', h, hget⟩ := hp
  rw [decide_eq_true_eq] at hget
  obtain ⟨-, -, hpolicy⟩ := location_policy hrun h
  obtain ⟨r, hr, hhandled⟩ := hpolicy 1 (by rw [hserves]; exact List.mem_singleton_self 1)
  rw [hget] at hr
  obtain rfl := Option.some.inj hr
  exact ⟨s, s', hrun, h, hserves, hget, hhandled (by decide +kernel)⟩

/-- For an `httpi://` location the application's worker is sent a message with an `iroh://`
target: it is to unregister it. -/
theorem unregister_other_scheme : ∃ s s' old offset,
    Run (Bridge.step appTransport) Always State.initial transportRun s ∧
    Bridge.step appTransport s transportBegin = some s' ∧ s.serves transportBegin = [1] ∧
    s'.requests[1]? = some ⟨httpiLocation, ⟨0, 0⟩⟩ ∧ isIroh httpiLocation = true ∧
    (appWorker, .sent (.unregister old offset)) ∈ s.added s' ∧ ¬Admitted httpiLocation old := by
  obtain ⟨s, hrun, hp⟩ := Run.exists_of_execute (show (execute (Bridge.step appTransport)
    Always State.initial transportRun).map (fun s => (decide (s.serves transportBegin = [1]) &&
      (Bridge.step appTransport s transportBegin).any fun s' =>
        decide (s'.requests[1]? = some ⟨httpiLocation, ⟨0, 0⟩⟩ ∧
          (appWorker, Exchange.sent (.unregister irohLocation 0)) ∈ s.added s'))) = some true
      by decide +kernel)
  rw [Bool.and_eq_true, decide_eq_true_eq, Option.any_eq_true] at hp
  obtain ⟨hserves, s', h, hboth⟩ := hp
  obtain ⟨hget, hsent⟩ := of_decide_eq_true hboth
  refine ⟨s, s', irohLocation, 0, hrun, h, hserves, hget, by decide +kernel, hsent, fun ha => ?_⟩
  have hscheme : scheme irohLocation ≠ scheme httpiLocation := by decide +kernel
  exact hscheme ha.sameScheme

end Haybarn.Bridge
