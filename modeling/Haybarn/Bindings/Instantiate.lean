import Haybarn.Lib.Run

/-!
# Instantiating the module

`instantiate()` of `bindings_base.ts` may be called by several callers at the same time. Two
fields are to keep them apart: `_instance`, which is there once `instantiateImpl` has resolved, and
`_initPromise`, which the first caller creates and which the module's runtime resolves when it has
been initialised.

Mirroring notes:

* one run of `instantiateImpl`, the promise that was created for it (whose resolver it is given
  as `onRuntimeInitialized`) and the module that it makes have one number;
* a call runs in one go up to an `await`, and from there when what it awaits has been settled
  (`Event.resume`). `await this._initPromise` awaits what the field holds at that time; awaiting
  `null` does not wait;
* when `instantiateImpl` resolves or rejects and when the runtime calls back is up to the event;
* `startHttpFetchHelper` never fails the call. The progress callbacks and `DUCKDB_BINDINGS` are
  left out: nothing here reads them;
* a place `returned` records the module that the caller goes on to use, and whether the runtime
  of this module had been initialised.

`instantiated_once` says when the module is instantiated once; `second_caller_goes_on` is what a
second caller does.
-/

namespace Haybarn.Bindings.Instantiate

open Haybarn.Lib

/-- The number of a run of `instantiateImpl`, of its promise and of its module. -/
abbrev ImplId := Nat

/-- Where a call of `instantiate()` is. -/
inductive Place
  /-- `await this._initPromise`, of an open in progress. -/
  | awaitOpen (promise : ImplId)
  /-- `await this.instantiateImpl(…)` -/
  | awaitImpl (impl : ImplId)
  /-- `await this._initPromise`, for `onRuntimeInitialized`. -/
  | awaitInit (promise : Option ImplId)
  /-- `await startHttpFetchHelper(this._instance)` -/
  | awaitHelper
  | returned (module : Option ImplId) (initialized : Bool)
  | rejected
  deriving DecidableEq, Repr

structure DuckDBBindingsBase where
  /-- `_instance` -/
  instance_ : Option ImplId
  initPromise : Option ImplId
  /-- How many times `instantiateImpl` has been called. -/
  impls : Nat
  /-- The runs of `instantiateImpl` that have resolved. -/
  loaded : List ImplId
  failed : List ImplId
  /-- The modules whose runtime has been initialised: their promises are resolved. -/
  initialized : List ImplId
  calls : List Place
  deriving DecidableEq, Repr

namespace DuckDBBindingsBase

def initial : DuckDBBindingsBase := ⟨none, none, 0, [], [], [], []⟩

/-- `return this` -/
def return_ (s : DuckDBBindingsBase) : Place :=
  .returned s.instance_ (s.instance_.any (· ∈ s.initialized))

/-- From the promise that is created up to `await this.instantiateImpl(…)`; `at_` puts the call
where it awaits. -/
def open_ (s : DuckDBBindingsBase) (at_ : Place → List Place) : DuckDBBindingsBase :=
  { s with
    initPromise := some s.impls
    impls := s.impls + 1
    calls := at_ (.awaitImpl s.impls) }

/-- `instantiate()`, up to its first `await`. -/
def instantiate (s : DuckDBBindingsBase) : DuckDBBindingsBase :=
  -- Already opened?
  if s.instance_.isSome then { s with calls := s.calls ++ [s.return_] }
  else
    match s.initPromise with
    -- Open in progress?
    | some promise => { s with calls := s.calls ++ [.awaitOpen promise] }
    | none => s.open_ fun p => s.calls ++ [p]

/-- The call goes on behind its `await`, if what it awaits has been settled. -/
def resume (s : DuckDBBindingsBase) (i : Nat) : Option DuckDBBindingsBase :=
  match s.calls[i]? with
  | some (.awaitOpen promise) =>
    if promise ∈ s.initialized then some (s.open_ fun p => s.calls.set i p) else none
  | some (.awaitImpl impl) =>
    if impl ∈ s.loaded then
      some { s with instance_ := some impl, calls := s.calls.set i (.awaitInit s.initPromise) }
    else if impl ∈ s.failed then some { s with calls := s.calls.set i .rejected }
    else none
  | some (.awaitInit promise) =>
    if promise.all (· ∈ s.initialized) then
      some { s with initPromise := none, calls := s.calls.set i .awaitHelper }
    else none
  | some .awaitHelper => some { s with calls := s.calls.set i s.return_ }
  | _ => none

end DuckDBBindingsBase

inductive Event
  | instantiate
  | resume (call : Nat)
  /-- `instantiateImpl` resolves. -/
  | loaded (impl : ImplId)
  /-- It rejects. -/
  | failed (impl : ImplId)
  /-- The runtime calls `onRuntimeInitialized`. -/
  | initialized (impl : ImplId)
  deriving DecidableEq, Repr

def step (s : DuckDBBindingsBase) : Event → Option DuckDBBindingsBase
  | .instantiate => some s.instantiate
  | .resume call => s.resume call
  | .loaded impl =>
    if impl < s.impls ∧ impl ∉ s.loaded ∧ impl ∉ s.failed then
      some { s with loaded := impl :: s.loaded }
    else none
  | .failed impl =>
    if impl < s.impls ∧ impl ∉ s.loaded ∧ impl ∉ s.failed then
      some { s with failed := impl :: s.failed }
    else none
  | .initialized impl =>
    if impl < s.impls then some { s with initialized := impl :: s.initialized } else none

/-! ## What the guard is for -/

/-- `instantiateImpl` runs once, and whoever has returned uses the module that is there, which had
been initialised before. -/
def Once (s : DuckDBBindingsBase) : Prop :=
  s.impls ≤ 1 ∧ ∀ p ∈ s.calls, ∀ module initialized, p = .returned module initialized →
    s.impls = 1 ∧ module.isSome ∧ module = s.instance_ ∧ initialized = true

/-- A call is made when no open is in progress: there is nothing yet, or there is a module whose
runtime has been initialised. -/
def Settled (s : DuckDBBindingsBase) : Event → Prop
  | .instantiate => (s.instance_ = none ∧ s.initPromise = none) ∨
      ∃ impl ∈ s.initialized, s.instance_ = some impl
  | _ => True

/-- What a call waits for. -/
def Place.waits : Place → Prop
  | .returned .. => False
  | .rejected => False
  | _ => True

/-- The states between the first call and its end. -/
inductive Phase (s : DuckDBBindingsBase) : Place → Prop
  | awaitImpl : s.instance_ = none → s.initPromise = some 0 → Phase s (.awaitImpl 0)
  | awaitInit : s.instance_ = some 0 → s.initPromise = some 0 → Phase s (.awaitInit (some 0))
  | awaitHelper : s.instance_ = some 0 → s.initPromise = none → 0 ∈ s.initialized →
      Phase s .awaitHelper
  | returned : s.instance_ = some 0 → s.initPromise = none → 0 ∈ s.initialized →
      Phase s (.returned (some 0) true)
  | rejected : s.instance_ = none → s.initPromise = some 0 → Phase s .rejected

/-- There is the first call, and those that have found its module ready. -/
inductive Inv (s : DuckDBBindingsBase) : Prop
  | closed : s.instance_ = none → s.initPromise = none → s.impls = 0 → s.calls = [] → Inv s
  | opened (first : Place) (others : List Place) : s.calls = first :: others → s.impls = 1 →
      Phase s first → (∀ p ∈ others, p = .returned (some 0) true) →
      (others ≠ [] → s.instance_ = some 0 ∧ 0 ∈ s.initialized) → Inv s

variable {s s' : DuckDBBindingsBase}

/-- The callbacks change neither the fields nor where the calls are. -/
theorem Inv.of_same (h : Inv s) (hinst : s'.instance_ = s.instance_)
    (hprom : s'.initPromise = s.initPromise) (himpls : s'.impls = s.impls)
    (hcalls : s'.calls = s.calls) (hinit : s.initialized ⊆ s'.initialized) : Inv s' := by
  cases h with
  | closed h1 h2 h3 h4 =>
    exact .closed (hinst.trans h1) (hprom.trans h2) (himpls.trans h3) (hcalls.trans h4)
  | opened first others h1 h2 hphase h3 h4 =>
    have hphase' : Phase s' first := by
      cases hphase with
      | awaitImpl h5 h6 => exact .awaitImpl (hinst.trans h5) (hprom.trans h6)
      | awaitInit h5 h6 => exact .awaitInit (hinst.trans h5) (hprom.trans h6)
      | awaitHelper h5 h6 h7 => exact .awaitHelper (hinst.trans h5) (hprom.trans h6) (hinit h7)
      | returned h5 h6 h7 => exact .returned (hinst.trans h5) (hprom.trans h6) (hinit h7)
      | rejected h5 h6 => exact .rejected (hinst.trans h5) (hprom.trans h6)
    exact .opened first others (hcalls.trans h1) (himpls.trans h2) hphase' h3
      fun hne => ⟨hinst.trans (h4 hne).1, hinit (h4 hne).2⟩

/-- A call that is made when no open is in progress. -/
theorem Inv.of_instantiate (h : Inv s) (hok : Settled s .instantiate) : Inv s.instantiate := by
  unfold DuckDBBindingsBase.instantiate
  cases h with
  | closed h1 h2 h3 h4 =>
    rw [if_neg (by simp [h1]), h2]
    refine .opened (.awaitImpl 0) [] ?_ ?_ (.awaitImpl h1 ?_) (by simp) (by simp)
    · simp [DuckDBBindingsBase.open_, h3, h4]
    · simp [DuckDBBindingsBase.open_, h3]
    · simp [DuckDBBindingsBase.open_, h3]
  | opened first others h1 h2 hphase h3 h4 =>
    -- the first call has created its promise, so there is a module
    have hready : s.instance_ = some 0 ∧ 0 ∈ s.initialized := by
      rcases hok with hnone | hready
      · cases hphase with
        | awaitImpl h5 h6 => rw [hnone.2] at h6; cases h6
        | awaitInit h5 h6 => rw [hnone.2] at h6; cases h6
        | awaitHelper h5 h6 h7 => exact ⟨h5, h7⟩
        | returned h5 h6 h7 => exact ⟨h5, h7⟩
        | rejected h5 h6 => rw [hnone.2] at h6; cases h6
      · obtain ⟨impl, himpl, hinst⟩ := hready
        cases hphase with
        | awaitImpl h5 h6 => rw [hinst] at h5; cases h5
        | awaitInit h5 h6 =>
          rw [hinst] at h5
          obtain rfl := Option.some.inj h5
          exact ⟨hinst, himpl⟩
        | awaitHelper h5 h6 h7 => exact ⟨h5, h7⟩
        | returned h5 h6 h7 => exact ⟨h5, h7⟩
        | rejected h5 h6 => rw [hinst] at h5; cases h5
    rw [if_pos (by simp [hready.1])]
    have hreturn : s.return_ = .returned (some 0) true := by
      simp [DuckDBBindingsBase.return_, hready.1, hready.2]
    have hphase' : Phase { s with calls := s.calls ++ [s.return_] } first := by
      cases hphase with
      | awaitImpl h5 h6 => exact .awaitImpl h5 h6
      | awaitInit h5 h6 => exact .awaitInit h5 h6
      | awaitHelper h5 h6 h7 => exact .awaitHelper h5 h6 h7
      | returned h5 h6 h7 => exact .returned h5 h6 h7
      | rejected h5 h6 => exact .rejected h5 h6
    refine .opened first (others ++ [s.return_]) (by simp [h1]) h2 hphase' ?_ fun _ => hready
    intro p hp
    rcases List.mem_append.mp hp with hp | hp
    · exact h3 p hp
    · rw [List.mem_singleton.mp hp, hreturn]

/-- The first call goes on; the others have returned. -/
theorem Inv.of_resume (h : Inv s) {i : Nat} (hs : s.resume i = some s') : Inv s' := by
  cases h with
  | closed h1 h2 h3 h4 => simp [DuckDBBindingsBase.resume, h4] at hs
  | opened first others h1 h2 hphase h3 h4 =>
    cases i with
    | succ i =>
      rw [DuckDBBindingsBase.resume, h1, List.getElem?_cons_succ] at hs
      cases hp : others[i]? with
      | none => simp [hp] at hs
      | some p =>
        obtain rfl := h3 p (List.mem_of_getElem? hp)
        simp [hp] at hs
    | zero =>
      have hset : ∀ p, s.calls.set 0 p = p :: others := fun p => by rw [h1, List.set_cons_zero]
      rw [DuckDBBindingsBase.resume, h1, List.getElem?_cons_zero, ← h1] at hs
      cases hphase with
      | returned h5 h6 h7 => cases hs
      | rejected h5 h6 => cases hs
      | awaitImpl h5 h6 =>
        have hnil : others = [] := by
          by_contra hne
          rw [(h4 hne).1] at h5
          cases h5
        simp only at hs
        split at hs
        · obtain rfl := Option.some.inj hs
          refine .opened _ others (hset _) h2 ?_ h3 fun hne => absurd hnil hne
          rw [h6]
          exact .awaitInit rfl rfl
        · split at hs
          · obtain rfl := Option.some.inj hs
            exact .opened _ others (hset _) h2 (.rejected h5 h6) h3 fun hne => absurd hnil hne
          · cases hs
      | awaitInit h5 h6 =>
        simp only [Option.all_some] at hs
        split at hs
        next hinit =>
          obtain rfl := Option.some.inj hs
          exact .opened _ others (hset _) h2 (.awaitHelper h5 rfl (of_decide_eq_true hinit)) h3 h4
        next => cases hs
      | awaitHelper h5 h6 h7 =>
        obtain rfl := Option.some.inj hs
        refine .opened _ others (hset _) h2 ?_ h3 h4
        have hreturn : s.return_ = .returned (some 0) true := by
          simp [DuckDBBindingsBase.return_, h5, h7]
        rw [hreturn]
        exact .returned h5 h6 h7

/-- **One event keeps the invariant**, if a call is made when no open is in progress. -/
theorem Inv.of_step (h : Inv s) {e : Event} (hok : Settled s e) (hs : step s e = some s') :
    Inv s' := by
  cases e with
  | instantiate => exact Option.some.inj hs ▸ h.of_instantiate hok
  | resume call => exact h.of_resume hs
  | loaded impl =>
    rw [step] at hs
    split at hs
    · exact Option.some.inj hs ▸ h.of_same rfl rfl rfl rfl (List.Subset.refl _)
    · cases hs
  | failed impl =>
    rw [step] at hs
    split at hs
    · exact Option.some.inj hs ▸ h.of_same rfl rfl rfl rfl (List.Subset.refl _)
    · cases hs
  | initialized impl =>
    rw [step] at hs
    split at hs
    · exact Option.some.inj hs ▸ h.of_same rfl rfl rfl rfl (List.subset_cons_self _ _)
    · cases hs

theorem Inv.once (h : Inv s) : Once s := by
  cases h with
  | closed h1 h2 h3 h4 => exact ⟨by omega, fun p hp => by simp [h4] at hp⟩
  | opened first others h1 h2 hphase h3 h4 =>
    refine ⟨by omega, fun p hp module initialized heq => ?_⟩
    rw [h1] at hp
    rcases List.mem_cons.mp hp with rfl | hother
    · subst heq
      cases hphase with
      | returned h5 h6 h7 => exact ⟨h2, rfl, h5.symm, rfl⟩
    · have hne : others ≠ [] := List.ne_nil_of_mem hother
      obtain ⟨rfl, rfl⟩ : some 0 = module ∧ true = initialized := by
        rw [h3 p hother] at heq
        exact Place.returned.inj heq
      exact ⟨h2, rfl, (h4 hne).1.symm, rfl⟩

/-- A call that waits can go on once the module is there and its runtime has been initialised. -/
theorem Inv.goes_on (h : Inv s) (hloaded : 0 ∈ s.loaded) (hinit : 0 ∈ s.initialized) {i : Nat}
    {p : Place} (hp : s.calls[i]? = some p) (hwaits : p.waits) :
    ∃ s', step s (.resume i) = some s' := by
  cases h with
  | closed h1 h2 h3 h4 => simp [h4] at hp
  | opened first others h1 h2 hphase h3 h4 =>
    cases i with
    | succ i =>
      rw [h1, List.getElem?_cons_succ] at hp
      rw [h3 p (List.mem_of_getElem? hp)] at hwaits
      exact hwaits.elim
    | zero =>
      rw [step, DuckDBBindingsBase.resume, hp]
      rw [h1, List.getElem?_cons_zero] at hp
      obtain rfl := Option.some.inj hp
      cases hphase with
      | returned h5 h6 h7 => exact hwaits.elim
      | rejected h5 h6 => exact hwaits.elim
      | awaitImpl h5 h6 => exact ⟨_, if_pos hloaded⟩
      | awaitInit h5 h6 => exact ⟨_, if_pos (by simpa using hinit)⟩
      | awaitHelper h5 h6 h7 => exact ⟨_, rfl⟩

/-- **When the module is instantiated once.** In every run in which each call is made when no open
is in progress, however the calls go on, `instantiateImpl` resolves or rejects and the runtime calls
back in between: `instantiateImpl` runs once, whoever has returned uses the one module, which was
initialised before, and a call that waits is not stuck once the module is there and initialised. -/
theorem instantiated_once {es : List Event} {s : DuckDBBindingsBase}
    (h : Run step Settled .initial es s) :
    Once s ∧ (0 ∈ s.loaded → 0 ∈ s.initialized → ∀ i p, s.calls[i]? = some p → p.waits →
      ∃ s', step s (.resume i) = some s') := by
  have hinv : Inv s := h.invariant (.closed rfl rfl rfl rfl)
    fun _ _ _ hinv hok hs => hinv.of_step hok hs
  exact ⟨hinv.once, fun hloaded hinit _ _ hp hwaits => hinv.goes_on hloaded hinit hp hwaits⟩

instance (s : DuckDBBindingsBase) (e : Event) : Decidable (Settled s e) :=
  match e with
  | .instantiate => inferInstanceAs (Decidable (_ ∨ _))
  | .resume _ | .loaded _ | .failed _ | .initialized _ => inferInstanceAs (Decidable True)

/-- One caller, and another one after it. -/
theorem instantiated_once_twoCallers :
    ∃ s, Run step Settled .initial [.instantiate, .initialized 0, .loaded 0, .resume 0,
      .instantiate, .resume 0, .resume 0] s ∧
      s.calls = [.returned (some 0) true, .returned (some 0) true] ∧ Once s := by
  obtain ⟨s, hrun, hs⟩ := Run.exists_of_execute (show (execute step Settled .initial
      [.instantiate, .initialized 0, .loaded 0, .resume 0, .instantiate, .resume 0, .resume 0]).map
      (fun s => decide (s.calls = [.returned (some 0) true, .returned (some 0) true])) =
        some true by decide +kernel)
  exact ⟨s, hrun, of_decide_eq_true hs, (instantiated_once hrun).1⟩

/-- A second caller that awaits the open in progress goes on to open once more: `instantiateImpl`
runs twice, and the first caller returns with the module of the second. -/
theorem second_caller_goes_on :
    ∃ s, Run step Always .initial [.instantiate, .instantiate, .initialized 0, .resume 1,
      .loaded 0, .resume 0, .loaded 1, .resume 1, .initialized 1, .resume 0, .resume 0] s ∧
      s.impls = 2 ∧ s.failed = [] ∧ s.calls[0]? = some (.returned (some 1) true) ∧ ¬ Once s := by
  obtain ⟨s, hrun, hs⟩ := Run.exists_of_execute (show (execute step Always .initial
      [.instantiate, .instantiate, .initialized 0, .resume 1, .loaded 0, .resume 0, .loaded 1,
        .resume 1, .initialized 1, .resume 0, .resume 0]).map
      (fun s => decide (s.impls = 2 ∧ s.failed = [] ∧
        s.calls[0]? = some (.returned (some 1) true))) = some true by decide +kernel)
  obtain ⟨himpls, hfailed, hcall⟩ := of_decide_eq_true hs
  refine ⟨s, hrun, himpls, hfailed, hcall, fun honce => ?_⟩
  have hone := honce.1
  omega

end Haybarn.Bindings.Instantiate
