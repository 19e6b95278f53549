import Haybarn.Bridge.Steps

/-!
# The regions of an adapter

What holds of an adapter's entry in every run: its targets are distinct, no two of them
share a channel, there are never more of them than the limit, and the operations are in
the order of the promise chain, so that at most one registration is waiting for its
reply. `EntryInv` is the invariant; a region leaves the entry only in a step that has
just found each of its slots free (`region_leaves`).
-/

namespace Haybarn.Bridge

open Haybarn.Lib

/-! ## Operations in a chain -/

theorem setStatus_get (ops : List Operation) (i j : Nat) (st : Status) :
    (setStatus ops i st)[j]? =
      if j = i then ops[j]?.map fun op => { op with status := st } else ops[j]? := by
  unfold setStatus
  rw [List.getElem?_modify]
  by_cases h : j = i
  · subst h
    rcases ops[j]? with _ | op
    · simp
    · simp
  · rw [if_neg h]
    rcases ops[j]? with _ | op
    · rfl
    · simp [Ne.symm h]

/-- The statuses of a promise chain: what has begun stands behind settled operations. -/
def Chained (ops : List Operation) : Prop :=
  ∀ (i j : Nat) (a b : Operation), i < j → ops[i]? = some a → ops[j]? = some b → b.status ≠ .waiting →
    a.status = .settled

theorem Chained.append {ops : List Operation} (h : Chained ops) {op : Operation}
    (hop : op.status = .waiting) : Chained (ops ++ [op]) := by
  intro i j a b hij ha hb hbegun
  have hj : j < ops.length := by
    by_cases hj : j < ops.length
    · exact hj
    · have hlt := (List.getElem?_eq_some_iff.mp hb).1
      rw [List.length_append, List.length_singleton] at hlt
      obtain rfl : j = ops.length := by omega
      rw [List.getElem?_append_right (Nat.le_refl _), Nat.sub_self] at hb
      obtain rfl := Option.some.inj hb
      exact absurd hop hbegun
  rw [List.getElem?_append_left hj] at hb
  rw [List.getElem?_append_left (by omega)] at ha
  exact h i j a b hij ha hb hbegun

/-- An operation with nothing unsettled before it may take any status. -/
theorem Chained.setStatus {ops : List Operation} (h : Chained ops) {i : Nat} {st : Status}
    (hbefore : ∀ j a, j < i → ops[j]? = some a → a.status = .settled)
    (hafter : st ≠ .settled → ∀ j a, i < j → ops[j]? = some a → a.status = .waiting) :
    Chained (setStatus ops i st) := by
  intro j k a b hjk ha hb hbegun
  rw [setStatus_get] at ha hb
  by_cases hk : k = i
  · -- the operation itself: those before it are settled
    subst hk
    rw [if_neg (by omega)] at ha
    exact hbefore j a hjk ha
  · rw [if_neg hk] at hb
    by_cases hj : j = i
    · subst hj
      rw [if_pos rfl] at ha
      obtain ⟨a', ha', rfl⟩ := Option.map_eq_some_iff.mp ha
      by_cases hst : st = .settled
      · exact hst
      · exact absurd (hafter hst k b hjk hb) hbegun
    · rw [if_neg hj] at ha
      exact h j k a b hjk ha hb hbegun

/-- What stands before an operation whose predecessor has settled. -/
theorem Chained.before {ops : List Operation} (h : Chained ops) {i : Nat}
    (hp : predecessorSettled ops i = true) :
    ∀ j a, j < i → ops[j]? = some a → a.status = .settled := by
  intro j a hj ha
  have hne : i ≠ 0 := by omega
  have hpred : ops[i - 1]?.map (·.status) = some .settled := by
    unfold predecessorSettled at hp
    simpa [hne] using hp
  obtain ⟨b, hb, hs⟩ := Option.map_eq_some_iff.mp hpred
  by_cases hlast : j = i - 1
  · rw [hlast, hb] at ha
    obtain rfl := Option.some.inj ha
    exact hs
  · exact h j (i - 1) a b (by omega) ha hb (by rw [hs]; simp)

/-- What stands behind an operation that has not settled. -/
theorem Chained.after {ops : List Operation} (h : Chained ops) {i : Nat} {op : Operation}
    (hop : ops[i]? = some op) (hs : op.status ≠ .settled) :
    ∀ j a, i < j → ops[j]? = some a → a.status = .waiting := by
  intro j a hj ha
  by_cases hw : a.status = .waiting
  · exact hw
  · exact absurd (h i j op a hj hop ha hw) hs

/-- What stands before an operation that has begun. -/
theorem Chained.before_begun {ops : List Operation} (h : Chained ops) {i : Nat} {op : Operation}
    (hop : ops[i]? = some op) (hs : op.status ≠ .waiting) :
    ∀ j a, j < i → ops[j]? = some a → a.status = .settled :=
  fun j a hj ha => h j i a op hj ha hop hs

/-! ## Regions -/

/-- The targets, and the channels, of the regions are distinct. -/
def Distinct (regions : List TargetRegion) : Prop :=
  regions.Pairwise fun a b => a.target ≠ b.target ∧ a.region ≠ b.region

theorem Distinct.without {regions gone : List TargetRegion} (h : Distinct regions) :
    Distinct (without regions gone) := List.Pairwise.filter _ h

theorem mem_without {regions gone : List TargetRegion} {r : TargetRegion} :
    r ∈ without regions gone ↔ r ∈ regions ∧ ∀ v ∈ gone, v.target ≠ r.target := by
  unfold Bridge.without
  rw [List.mem_filter]
  refine and_congr_right fun _ => ?_
  simp

/-- No two regions of a distinct list have one target. -/
theorem Distinct.target_inj {regions : List TargetRegion} (h : Distinct regions)
    {a b : TargetRegion} (ha : a ∈ regions) (hb : b ∈ regions) (he : a.target = b.target) :
    a = b := by
  have hnodup : (regions.map (·.target)).Nodup :=
    List.pairwise_map.mpr (h.imp fun hxy => hxy.1)
  exact List.inj_on_of_nodup_map hnodup ha hb he

theorem current_some {regions : List TargetRegion} {target : String} {r : TargetRegion}
    (h : current regions target = some r) : r ∈ regions ∧ r.target = target :=
  ⟨List.mem_of_find?_eq_some h, by simpa using List.find?_some h⟩

theorem current_none {regions : List TargetRegion} {target : String}
    (h : current regions target = none) : ∀ r ∈ regions, r.target ≠ target := by
  intro r hr he
  have hnot := List.find?_eq_none.mp h r hr
  simp [he] at hnot

theorem mem_conflicts {regions : List TargetRegion} {target : String} {region : Region}
    {r : TargetRegion} : r ∈ conflicts regions target region ↔
      current regions target = some r ∨
        (r ∈ regions ∧ some r ≠ current regions target ∧ r.region = region) := by
  unfold conflicts
  rw [List.mem_append, Option.mem_toList, List.mem_filter]
  simp

theorem victim_mem {regions : List TargetRegion} {mem : Region → Lanes} {r : TargetRegion}
    (h : victim regions mem = some r) : r ∈ regions := by
  have hmem := List.mem_of_mem_head? h
  exact (List.mem_filter.mp (List.mem_mergeSort.mp hmem)).1

/-- What is displaced was there, and leaves room for the target and its channel. -/
theorem displaced_spec {max : Nat} {regions gone : List TargetRegion} {target : String}
    {region : Region} {first : Region → Lanes} (hd : Distinct regions)
    (hmax : regions.length ≤ max)
    (h : displaced max regions target region first = some gone) :
    (∀ r ∈ gone, r ∈ regions) ∧
      (∀ r ∈ without regions gone, r.target ≠ target ∧ r.region ≠ region) ∧
      (without regions gone).length < max := by
  have hsub : ∀ r ∈ conflicts regions target region, r ∈ regions := by
    intro r hr
    rcases mem_conflicts.mp hr with hc | ⟨hr, -⟩
    · exact (current_some hc).1
    · exact hr
  have hlt : ∀ g : List TargetRegion, ∀ v ∈ g, v ∈ regions →
      (without regions g).length < regions.length := by
    intro g v hv hvr
    refine List.length_filter_lt_length_iff_exists.mpr ⟨v, hvr, ?_⟩
    simp only [Bool.not_eq_true', Bool.not_eq_false, List.any_eq_true]
    exact ⟨v, hv, by simp⟩
  unfold displaced at h
  by_cases hfull : current regions target = none ∧ conflicts regions target region = [] ∧
      max ≤ regions.length
  · rw [if_pos hfull] at h
    obtain ⟨v, hv, rfl⟩ := Option.map_eq_some_iff.mp h
    have hvr := victim_mem hv
    obtain ⟨hnone, hnoconf, -⟩ := hfull
    refine ⟨fun r hr => List.mem_singleton.mp hr ▸ hvr, fun r hr => ?_, ?_⟩
    · have hr' := (mem_without.mp hr).1
      refine ⟨current_none hnone r hr', fun he => ?_⟩
      have hc : r ∈ conflicts regions target region :=
        mem_conflicts.mpr (.inr ⟨hr', by rw [hnone]; simp, he⟩)
      rw [hnoconf] at hc
      cases hc
    · have hshort := hlt [v] v (List.mem_singleton_self v) hvr
      omega
  · rw [if_neg hfull] at h
    obtain rfl := Option.some.inj h
    refine ⟨hsub, fun r hr => ?_, ?_⟩
    · obtain ⟨hr', hgone⟩ := mem_without.mp hr
      have hnot : r ∉ conflicts regions target region := fun hc => hgone r hc rfl
      rw [mem_conflicts, not_or] at hnot
      have htarget : r.target ≠ target := by
        intro he
        rcases hcur : current regions target with _ | c
        · exact current_none hcur r hr' he
        · obtain ⟨hc, hct⟩ := current_some hcur
          exact hnot.1 (hd.target_inj hc hr' (hct.trans he.symm) ▸ hcur)
      exact ⟨htarget, fun he => hnot.2 ⟨hr', hnot.1 ∘ Eq.symm, he⟩⟩
    · by_cases hroom : regions.length < max
      · exact Nat.lt_of_le_of_lt (List.length_filter_le _ _) hroom
      · have hsome : ∃ v, v ∈ conflicts regions target region := by
          by_cases hcur : current regions target = none
          · have hne : conflicts regions target region ≠ [] := fun he =>
              hfull ⟨hcur, he, by omega⟩
            exact List.exists_mem_of_ne_nil _ hne
          · obtain ⟨c, hc⟩ := Option.ne_none_iff_exists'.mp hcur
            exact ⟨c, mem_conflicts.mpr (.inl hc)⟩
        obtain ⟨v, hv⟩ := hsome
        have hshort := hlt _ v hv (hsub v hv)
        omega

theorem setRegion_new {regions : List TargetRegion} {next : TargetRegion}
    (h : ∀ r ∈ regions, r.target ≠ next.target) : setRegion regions next = regions ++ [next] := by
  unfold setRegion
  rw [if_neg]
  intro hany
  obtain ⟨r, hr, he⟩ := List.any_eq_true.mp hany
  exact h r hr (by simpa using he)

/-! ## The invariant -/

variable {opts : Options} {s s' : State} {ev : Event} {key : String} {e e' : AdapterEntry}

/-- What holds of an entry between events. The region a registration waits for is not
there yet, and there is room for it. -/
structure EntryInv (opts : Options) (e : AdapterEntry) : Prop where
  distinct : Distinct e.regions
  size : e.regions.length ≤ opts.maxTargetsPerAdapter
  chained : Chained e.operations
  awaiting : ∀ (i : Nat) (op : Operation) (id : Nat) (next : TargetRegion),
    e.operations[i]? = some op → op.status = .awaiting id next →
      (∀ r ∈ e.regions, r.target ≠ next.target ∧ r.region ≠ next.region) ∧
        e.regions.length < opts.maxTargetsPerAdapter ∧
        next.target = op.target ∧ next.region = op.region

/-- Once operation `i` takes a status that is not a wait, nobody waits. -/
theorem nobody_awaits {ops : List Operation} (hch : Chained ops) {i : Nat} {op : Operation}
    (hop : ops[i]? = some op) (hns : op.status ≠ .settled)
    (hbefore : ∀ j a, j < i → ops[j]? = some a → a.status = .settled) {st : Status}
    (hst : ∀ id next, st ≠ .awaiting id next) (j : Nat) (a : Operation) (id : Nat)
    (next : TargetRegion) (ha : (setStatus ops i st)[j]? = some a) : a.status ≠ .awaiting id next := by
  rw [setStatus_get] at ha
  by_cases hj : j = i
  · rw [if_pos hj] at ha
    obtain ⟨b, -, rfl⟩ := Option.map_eq_some_iff.mp ha
    exact hst id next
  · rw [if_neg hj] at ha
    by_cases hlt : j < i
    · rw [hbefore j a hlt ha]
      simp
    · rw [hch.after hop hns j a (by omega) ha]
      simp

/-- What stands before an operation that a step may end: settled operations. -/
theorem settled_before {ops : List Operation} (hch : Chained ops) {i : Nat} {op : Operation}
    (hop : ops[i]? = some op) (hp : op.status = .waiting → predecessorSettled ops i = true) :
    ∀ j a, j < i → ops[j]? = some a → a.status = .settled := by
  by_cases hw : op.status = .waiting
  · exact hch.before (hp hw)
  · exact hch.before_begun hop hw

/-- **Every change keeps the invariant.** -/
theorem EntryStep.inv (h : EntryStep opts s key ev e e') (hi : EntryInv opts e) :
    EntryInv opts e' := by
  obtain ⟨hdist, hsize, hch, haw⟩ := hi
  cases h with
  | same => exact ⟨hdist, hsize, hch, haw⟩
  | queued location region url target app =>
    refine ⟨hdist, hsize, hch.append rfl, fun i op id next hop hs => ?_⟩
    by_cases hlt : i < e.operations.length
    · rw [List.getElem?_append_left hlt] at hop
      exact haw i op id next hop hs
    · rw [List.getElem?_append_right (by omega)] at hop
      obtain rfl := List.mem_singleton.mp (List.mem_of_getElem? hop)
      cases hs
  | settled _ _ i op hop hp hns =>
    have hbefore := settled_before hch hop hp
    refine ⟨hdist, hsize, hch.setStatus hbefore (fun h => absurd rfl h), ?_⟩
    intro j a id next ha hs
    exact absurd hs (nobody_awaits hch hop hns hbefore (by simp) j a id next ha)
  | touched first second _ i op hop hw hp hcur =>
    have hbefore := hch.before hp
    have hns : op.status ≠ .settled := by rw [hw]; simp
    refine ⟨?_, ?_, hch.setStatus hbefore (fun h => absurd rfl h), ?_⟩
    · -- only `lastUsed` changes
      refine List.pairwise_map.mpr (hdist.imp fun hab => ?_)
      constructor
      · split <;> split <;> exact hab.1
      · split <;> split <;> exact hab.2
    · rw [List.length_map]
      exact hsize
    · intro j a id next ha hs
      exact absurd hs (nobody_awaits hch hop hns hbefore (by simp) j a id next ha)
  | registering first second _ i op gone hop hw hp hcur hgone hidle =>
    have hbefore := hch.before hp
    have hns : op.status ≠ .settled := by rw [hw]; simp
    obtain ⟨-, hfree, hroom⟩ := displaced_spec hdist hsize hgone
    refine ⟨hdist.without, Nat.le_of_lt hroom, hch.setStatus hbefore fun _ => hch.after hop hns, ?_⟩
    intro j a id next ha hs
    rw [setStatus_get] at ha
    by_cases hj : j = i
    · rw [if_pos hj, hj, hop] at ha
      obtain rfl := Option.some.inj ha
      injection hs with _ hnext
      subst hnext
      exact ⟨hfree, hroom, rfl, rfl⟩
    · rw [if_neg hj] at ha
      by_cases hlt : j < i
      · rw [hbefore j a hlt ha] at hs
        cases hs
      · rw [hch.after hop hns j a (by omega) ha] at hs
        cases hs
  | registered id _ i op next hop hs =>
    have hns : op.status ≠ .settled := by rw [hs]; simp
    have hbefore := hch.before_begun hop (by rw [hs]; simp)
    obtain ⟨hfree, hroom, -, -⟩ := haw i op id next hop hs
    rw [setRegion_new fun r hr => (hfree r hr).1]
    refine ⟨?_, ?_, hch.setStatus hbefore (fun h => absurd rfl h), ?_⟩
    · refine List.pairwise_append.mpr ⟨hdist, List.pairwise_singleton _ _, fun a ha b hb => ?_⟩
      rw [List.mem_singleton.mp hb]
      exact hfree a ha
    · rw [List.length_append, List.length_singleton]
      omega
    · intro j a id next ha hs'
      exact absurd hs' (nobody_awaits hch hop hns hbefore (by simp) j a id next ha)

/-- The entry of a fresh boot. -/
theorem Fresh.inv {boot : AdapterBoot} {w : WorkerId} (h : Fresh boot w e) : EntryInv opts e := by
  obtain ⟨hreg, -, hops⟩ := h
  have hpos := opts.max_pos
  refine ⟨?_, ?_, ?_, ?_⟩
  · rw [hreg]
    exact List.pairwise_singleton _ _
  · rw [hreg, List.length_singleton]
    omega
  · intro i j a b _ _ hb hbegun
    exact absurd (hops b (List.mem_of_getElem? hb)).1 hbegun
  · intro i op id next hop hs
    rw [(hops op (List.mem_of_getElem? hop)).1] at hs
    cases hs

/-- Boots and entries are apart, and every entry has its invariant. -/
structure Inv (opts : Options) (s : State) : Prop where
  apart : Apart s
  entries : ∀ key e, s.adapters key = some e → EntryInv opts e

theorem Inv.initial : Inv opts State.initial :=
  ⟨fun _ h => absurd rfl h, fun _ _ h => by cases h⟩

theorem Inv.step (hi : Inv opts s) (h : step opts s ev = some s') : Inv opts s' := by
  refine ⟨step_apart hi.apart h, fun key e' he' => ?_⟩
  have hc := step_changes hi.apart h
  rcases hk : s.adapters key with _ | e
  · rcases hc.fresh key hk with hnone | ⟨boot, w, e₁, -, -, -, he₁, hfresh⟩
    · rw [hnone] at he'
      cases he'
    · rw [he₁] at he'
      obtain rfl := Option.some.inj he'
      exact hfresh.inv
  · obtain ⟨e₁, he₁, hstep⟩ := hc.kept key e hk
    rw [he₁] at he'
    obtain rfl := Option.some.inj he'
    exact hstep.inv (hi.entries key e hk)

theorem Inv.of_run {es : List Event} (h : Run (Bridge.step opts) Always State.initial es s) :
    Inv opts s :=
  h.invariant (P := Inv opts) .initial fun _ _ _ hi _ hs => hi.step hs

/-! ## The regions over a run -/

/-- A registration of operation `i` is in flight. -/
def InFlight (e : AdapterEntry) (i : Nat) : Prop :=
  ∃ op id next, e.operations[i]? = some op ∧ op.status = .awaiting id next

/-- In the lanes a check saw, every slot of the region had STATE 0. -/
def SlotsFree (region : Region) (mem : Lanes) : Prop :=
  ∀ slot : Nat, slot < (mem.load (headerLane region.offset 2)).toInt →
    let state := stateLane region.offset (mem.load (headerLane region.offset 5))
      (mem.load (headerLane region.offset 4)) slot
    mem.valid state = true ∧ mem.load state = 0

theorem slotsFree_of_idle {region : Region} {mem : Lanes} (h : regionIsIdle region mem = true) :
    SlotsFree region mem := by
  intro slot hslot
  unfold regionIsIdle at h
  simp only [Bool.and_eq_true, List.all_eq_true, decide_eq_true_eq, List.mem_range] at h
  exact h.2.2 slot (by omega)

theorem EntryInv.one_in_flight (hi : EntryInv opts e) {i j : Nat} (h : InFlight e i)
    (h' : InFlight e j) : i = j := by
  obtain ⟨a, id, next, ha, hs⟩ := h
  obtain ⟨b, id', next', hb, hs'⟩ := h'
  rcases Nat.lt_trichotomy i j with hlt | heq | hlt
  · have hset := hi.chained i j a b hlt ha hb (by rw [hs']; simp)
    rw [hs] at hset
    cases hset
  · exact heq
  · have hset := hi.chained j i b a hlt hb ha (by rw [hs]; simp)
    rw [hs'] at hset
    cases hset

/-- A region leaves an entry, by eviction or for another, only in a step that has just
found its slots free. -/
theorem EntryStep.region_leaves (h : EntryStep opts s key ev e e') (hi : EntryInv opts e)
    {r : TargetRegion} (hr : r ∈ e.regions)
    (hgone : ∀ r' ∈ e'.regions, r'.target = r.target → r'.region ≠ r.region) :
    ∃ i first second, ev = .begin key i first second ∧ SlotsFree r.region (second r.region) := by
  cases h with
  | same => exact absurd rfl (hgone r hr rfl)
  | queued => exact absurd rfl (hgone r hr rfl)
  | settled => exact absurd rfl (hgone r hr rfl)
  | touched first second _ i op =>
    refine absurd ?_ (hgone _ (List.mem_map_of_mem hr) ?_)
    · split <;> rfl
    · split <;> rfl
  | registering first second _ i op gone hop hw hp hcur hd hidle =>
    have hin : ∃ v ∈ gone, v.target = r.target := by
      by_contra hnot
      refine hgone r (mem_without.mpr ⟨hr, fun v hv he => hnot ⟨v, hv, he⟩⟩) rfl rfl
    obtain ⟨v, hv, he⟩ := hin
    have hvr := (displaced_spec hi.distinct hi.size hd).1 v hv
    obtain rfl := hi.distinct.target_inj hvr hr he
    exact ⟨i, first, second, rfl, slotsFree_of_idle (hidle v hv)⟩
  | registered id _ i op next hop hs =>
    have hfree := (hi.awaiting i op id next hop hs).1
    refine absurd rfl (hgone r ?_ rfl)
    show r ∈ setRegion e.regions next
    rw [setRegion_new fun r hr => (hfree r hr).1]
    exact List.mem_append_left _ hr

/-- **The regions of an adapter, in every run**: at most the limit, no two on one
channel, at most one registration in flight; and in every next step a region is evicted
or rebound only if each of its slots had STATE 0 when it was checked. -/
theorem adapter_regions {es : List Event} (h : Run (step opts) Always State.initial es s)
    (hk : s.adapters key = some e) :
    e.regions.length ≤ opts.maxTargetsPerAdapter ∧
    (e.regions.Pairwise fun a b => a.region ≠ b.region) ∧
    (∀ i j, InFlight e i → InFlight e j → i = j) ∧
    ∀ ev s', step opts s ev = some s' → ∃ e', s'.adapters key = some e' ∧
      ∀ r ∈ e.regions, (∀ r' ∈ e'.regions, r'.target = r.target → r'.region ≠ r.region) →
        ∃ i first second, ev = .begin key i first second ∧
          SlotsFree r.region (second r.region) := by
  have hinv := Inv.of_run h
  have hi := hinv.entries key e hk
  refine ⟨hi.size, hi.distinct.imp fun hab => hab.2, fun i j => hi.one_in_flight, ?_⟩
  intro ev s' hstep
  obtain ⟨e', he', hchange⟩ := (step_changes hinv.apart hstep).kept key e hk
  exact ⟨e', he', fun r hr hgone => hchange.region_leaves hi hr hgone⟩

/-- Every location is a target of one adapter, which may have `max` of them. -/
def oneAdapter (max : Nat) (h : 0 < max) : Options where
  resolveWorkerUrl := some
  resolveAdapterTarget := some fun location => some
    { adapterUrl := "adapter.js", adapterKey := "iroh-v1", canonicalTarget := location }
  irohAdapterWorker := false
  resolveIrohTarget := none
  pageUrl := "page"
  maxTargetsPerAdapter := max
  max_pos := h

/-- The lanes of a channel with one free slot. -/
def freeSlot : Lanes where
  length := 32
  lane i := if i = 2 then 1 else if i = 4 then 64 else if i = 5 then 64 else 0

/-- A second target takes the place of the first. -/
def replaceRun : List Event :=
  [.ensure "node-a" ⟨0, 0⟩, .spawned "iroh-v1" true, .bootReply "iroh-v1" true,
    .ensure "node-b" ⟨1, 0⟩, .begin "iroh-v1" 0 (fun _ => freeSlot) (fun _ => freeSlot),
    .registrationReply "iroh-v1" 1 true]

theorem adapter_regions_replaced : ∃ s e,
    Run (step (oneAdapter 1 (by decide))) Always State.initial replaceRun s ∧
    s.adapters "iroh-v1" = some e ∧ e.regions.map (·.region) = [⟨1, 0⟩] ∧
    e.regions.length ≤ 1 ∧ ∀ i j, InFlight e i → InFlight e j → i = j := by
  obtain ⟨s, hrun, hp⟩ := Run.exists_of_execute (show (execute (step (oneAdapter 1 (by decide)))
    Always State.initial replaceRun).map (fun s => decide ((s.adapters "iroh-v1").map
      (fun e => e.regions.map (·.region)) = some [⟨1, 0⟩])) = some true by decide +kernel)
  obtain ⟨e, he, hregions⟩ := Option.map_eq_some_iff.mp (of_decide_eq_true hp)
  obtain ⟨hsize, -, hone, -⟩ := adapter_regions hrun he
  exact ⟨s, e, hrun, he, hregions, hsize, hone⟩

end Haybarn.Bridge
