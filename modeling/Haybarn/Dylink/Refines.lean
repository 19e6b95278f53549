import Haybarn.Dylink.Glue

/-!
# The lazy glue is equivalent to the eager one

The tables of the lazy glue stand for those of the eager glue: the proxy shows the exports of the
main module that `wasmImports` would hold (`Env.shown`), and a GOT entry that does not exist yet
stands for the one that `updateGOT(mainExports)` would have made (`Env.view`). Every operation
keeps this relation and gives the same answer, so no sequence of lookups, GOT requests, loads and
`dlsym` calls can tell the two apart (`lazy_glue_equivalent`).

A stale entry cannot come up because of two facts: a symbol that the main module defines is never
stored under the proxy, since it counts as defined (`fromMain_of_not_defined`), and an entry of the
main module exists before a side module's export of the same name is considered
(`view_lazyUpdateGOT`).
-/

namespace Haybarn.Dylink

open Haybarn.Lib

variable (env : Env)

/-! ## Folding over a table -/

section

variable {V : Type}

/-- Folding an update of single entries, when a second update of an entry changes nothing. -/
theorem foldl_update_apply (F : String → Option V → Option V)
    (hF : ∀ s own, F s (F s own) = F s own) (names : List String) (k : String) :
    ∀ table : String → Option V,
      names.foldl (fun table s => Function.update table s (F s (table s))) table k
        = if k ∈ names then F k (table k) else table k := by
  induction names with
  | nil =>
    intro table
    simp
  | cons s names ih =>
    intro table
    rw [List.foldl_cons, ih]
    by_cases hk : k = s
    · subst hk
      simp [hF]
    · simp [hk]

/-- Folding an update of single entries, one for each key. -/
theorem foldl_update_lookup {X : Type} (F : String → X → Option V → Option V) (k : String) :
    ∀ (exports : List (String × X)) (table : String → Option V), (exports.map (·.1)).Nodup →
      exports.foldl (fun table x => Function.update table x.1 (F x.1 x.2 (table x.1))) table k
        = match exports.lookup k with
          | some x => F k x (table k)
          | none => table k := by
  intro exports
  induction exports with
  | nil => exact fun _ _ => rfl
  | cons x exports ih =>
    intro table hnodup
    rw [List.map_cons, List.nodup_cons] at hnodup
    obtain ⟨hx, hrest⟩ := hnodup
    rw [List.foldl_cons, ih _ hrest]
    by_cases hk : k = x.1
    · subst hk
      have hnone : exports.lookup x.1 = none := by
        rw [List.lookup_eq_none_iff]
        intro y hy
        rw [bne_iff_ne]
        intro he
        exact hx (he ▸ List.mem_map_of_mem hy)
      rw [hnone, List.lookup_cons_self]
      simp
    · rw [List.lookup_cons, beq_false_of_ne hk]
      simp [hk]

end

/-! ## The entry of a symbol of the main module -/

/-- The entry that `updateGOT(mainExports)` makes when there is none. -/
def Env.mainEntry (s : String) : Option Entry :=
  match env.main.lookup s with
  | some x => env.fill false s x none
  | none => none

/-- What the GOT of the lazy glue stands for. -/
def Env.view (got : GOT) : GOT := fun s => (got s).or (env.mainEntry s)

theorem Env.mainEntry_eq {s : String} {e : Entry} (h : env.mainEntry s = some e) :
    env.inherited s = none ∧ ∃ x, e = ⟨.address (.wasm x), false⟩ := by
  unfold Env.mainEntry at h
  split at h
  · next x hx =>
    unfold Env.fill at h
    cases hi : env.inherited s with
    | some id => simp [Env.entryAt, hi] at h
    | none =>
      simp only [Env.entryAt, hi, Option.map_none, Option.any_none, Option.getD_none] at h
      split at h
      · cases h
      · split at h
        · split at h
          · cases h
          · injection h with h
            exact ⟨rfl, x, h.symm⟩
        · cases h
  · cases h

/-- Filling never removes an entry. -/
theorem Env.fill_isSome {replace : Bool} {s : String} {x : Export} {own : Option Entry}
    (h : own.isSome) : (env.fill replace s x own).isSome := by
  unfold Env.fill
  split
  · exact h
  · dsimp only
    split
    · split
      · exact h
      · rfl
    · exact h

/-- A second fill finds the value of the first one. -/
theorem Env.fill_fill (s : String) (x : Export) (own : Option Entry) :
    env.fill false s x (env.fill false s x own) = env.fill false s x own := by
  have hcases : env.fill false s x own = own
      ∨ ∃ required, env.fill false s x own = some ⟨.address (.wasm x), required⟩ := by
    unfold Env.fill
    split
    · exact Or.inl rfl
    · dsimp only
      split
      · split
        · exact Or.inl rfl
        · exact Or.inr ⟨_, rfl⟩
      · exact Or.inl rfl
  rcases hcases with h | ⟨required, h⟩
  · rw [h, h]
  · rw [h]
    unfold Env.fill
    split
    · rfl
    · simp [Env.entryAt]

/-! ## The view of the GOT -/

theorem Env.gotFromMain_eq (got : GOT) (s : String) :
    env.gotFromMain got s = Function.update got s (env.view got s) := by
  have hsome : ∀ e, got s = some e → got = Function.update got s (env.view got s) := by
    intro e he
    rw [Env.view, he, Option.some_or, ← he, Function.update_eq_self]
  cases hs : got s with
  | some e =>
    rw [← hsome e hs]
    unfold Env.gotFromMain
    split
    · rw [if_neg (by simp [Env.entryAt, hs])]
    · rfl
  | none =>
    rw [Env.view, hs, Option.none_or]
    unfold Env.gotFromMain Env.mainEntry
    cases env.main.lookup s with
    | none =>
      dsimp only
      rw [← hs, Function.update_eq_self]
    | some x =>
      dsimp only
      split
      · rw [Env.updateSymbol, hs]
      · next hcond =>
        -- The property is inherited or the symbol is internal: nothing is made of the entry.
        have hnone : env.fill false s x none = none := by
          unfold Env.fill
          split
          · rfl
          · next hint =>
            cases hi : env.inherited s with
            | none => simp [Env.entryAt, hs, hi, hint] at hcond
            | some id => simp [Env.entryAt, hi]
        rw [hnone, ← hs, Function.update_eq_self]

theorem Env.view_view_apply (got : GOT) (s : String) :
    (env.view got s).or (env.mainEntry s) = env.view got s := by
  unfold Env.view
  cases got s with
  | some e => rfl
  | none =>
    rw [Option.none_or]
    cases env.mainEntry s <;> rfl

/-- Fetching an entry of the main module changes nothing about what the GOT stands for. -/
theorem Env.view_gotFromMain (got : GOT) (s : String) :
    env.view (env.gotFromMain got s) = env.view got := by
  funext k
  rw [Env.gotFromMain_eq]
  by_cases hk : k = s
  · subst hk
    show (Function.update got k (env.view got k) k).or (env.mainEntry k) = env.view got k
    rw [Function.update_self, Env.view_view_apply]
  · show (Function.update got s (env.view got s) k).or (env.mainEntry k) = env.view got k
    rw [Function.update_of_ne hk]
    rfl

theorem Env.gotFromMain_self (got : GOT) (s : String) :
    env.gotFromMain got s s = env.view got s := by
  rw [Env.gotFromMain_eq, Function.update_self]

theorem Env.foldl_gotFromMain (names : List String) (got : GOT) (k : String) :
    names.foldl env.gotFromMain got k = if k ∈ names then env.view got k else got k := by
  have hstep : env.gotFromMain
      = fun got s => Function.update got s ((got s).or (env.mainEntry s)) := by
    funext got s
    exact env.gotFromMain_eq got s
  rw [hstep, foldl_update_apply (fun s own => own.or (env.mainEntry s))]
  · rfl
  · intro s own
    rw [Option.or_assoc, Option.or_self]

theorem Env.view_foldl_gotFromMain (names : List String) :
    ∀ got : GOT, env.view (names.foldl env.gotFromMain got) = env.view got := by
  induction names with
  | nil => exact fun _ => rfl
  | cons s names ih =>
    intro got
    rw [List.foldl_cons, ih, Env.view_gotFromMain]

theorem Env.view_update (got : GOT) (s : String) (e : Entry) :
    env.view (Function.update got s (some e)) = Function.update (env.view got) s (some e) := by
  funext k
  unfold Env.view
  by_cases hk : k = s
  · subst hk
    rw [Function.update_self, Function.update_self, Option.some_or]
  · rw [Function.update_of_ne hk, Function.update_of_ne hk]

/-- **A new export has the same effect on the entry as on the entry that it stands for**: it
replaces both, or the entry of the main module has been fetched before. -/
theorem Env.fill_or_mainEntry {replace : Bool} {s : String} (x : Export) {own : Option Entry}
    (h : replace = true ∨ own.or (env.mainEntry s) = own) :
    (env.fill replace s x own).or (env.mainEntry s)
      = env.fill replace s x (own.or (env.mainEntry s)) := by
  cases own with
  | some e =>
    obtain ⟨e', he'⟩ := Option.isSome_iff_exists.mp
      (@Env.fill_isSome env replace s x (some e) rfl)
    rw [Option.some_or, he', Option.some_or]
  | none =>
    rw [Option.none_or] at h ⊢
    cases hmain : env.mainEntry s with
    | none => rw [Option.or_none]
    | some e =>
      obtain ⟨hinherited, y, rfl⟩ := env.mainEntry_eq hmain
      rw [hmain] at h
      rcases h with rfl | h
      · -- The replacement is marked as required in neither.
        unfold Env.fill
        split
        · rfl
        · simp only [Bool.true_or, if_true, Env.entryAt, hinherited]
          split <;> rfl
      · cases h

theorem Env.view_updateSymbol {replace : Bool} (got : GOT) (x : String × Export)
    (h : replace = true ∨ env.view got x.1 = got x.1) :
    env.view (env.updateSymbol replace got x) = env.updateSymbol replace (env.view got) x := by
  funext k
  unfold Env.updateSymbol
  by_cases hk : k = x.1
  · subst hk
    show (Function.update got x.1 _ x.1).or (env.mainEntry x.1) = _
    rw [Function.update_self, Function.update_self]
    exact env.fill_or_mainEntry x.2 h
  · show (Function.update got x.1 _ k).or (env.mainEntry k) = _
    rw [Function.update_of_ne hk, Function.update_of_ne hk]
    rfl

theorem Env.view_updateGOT {replace : Bool} (exports : Exports) :
    ∀ got : GOT, (replace = true ∨ ∀ x ∈ exports, env.view got x.1 = got x.1) →
      env.view (env.updateGOT exports replace got)
        = env.updateGOT exports replace (env.view got) := by
  induction exports with
  | nil => exact fun _ _ => rfl
  | cons x exports ih =>
    intro got h
    have hx := @Env.view_updateSymbol env replace got x
      (h.imp id fun h => h x List.mem_cons_self)
    show env.view (env.updateGOT exports replace (env.updateSymbol replace got x))
      = env.updateGOT exports replace (env.updateSymbol replace (env.view got) x)
    rw [ih _ ?_, hx]
    refine h.imp id fun h y hy => ?_
    rw [hx]
    unfold Env.updateSymbol
    by_cases he : y.1 = x.1
    · rw [he, Function.update_self, Function.update_self, h x List.mem_cons_self]
    · rw [Function.update_of_ne he, Function.update_of_ne he, h y (List.mem_cons_of_mem _ hy)]

/-- The entries of the main module are fetched before the exports of a side module are looked at,
so a definition of the main module keeps its place. -/
theorem Env.view_lazyUpdateGOT (exports : Exports) (replace : Bool) (got : GOT) :
    env.view (env.lazyUpdateGOT exports replace got)
      = env.updateGOT exports replace (env.view got) := by
  unfold Env.lazyUpdateGOT
  cases replace with
  | true => exact env.view_updateGOT exports got (Or.inl rfl)
  | false =>
    rw [if_neg (by decide), env.view_updateGOT, env.view_foldl_gotFromMain]
    refine Or.inr fun x hx => ?_
    rw [env.view_foldl_gotFromMain, env.foldl_gotFromMain,
      if_pos (List.mem_map_of_mem hx)]

theorem Env.view_lazyGotGet (weak : Bool) (s : String) (got : GOT) :
    env.view (env.lazyGotGet weak s got) = env.gotGet weak s (env.view got) := by
  unfold Env.lazyGotGet Env.gotGet
  rw [env.view_update, env.view_gotFromMain, env.gotFromMain_self]

/-! ## What the proxy shows -/

theorem Env.lookup_of_fromMain {st : LazyState} {s : String} (h : env.fromMain st s = true) :
    (env.main.lookup s).isSome := by
  unfold Env.fromMain at h
  simp only [Bool.and_eq_true] at h
  exact h.1.2

theorem Env.lookup_shown (st : LazyState) (s : String) :
    env.lookup (env.shown st) s = (lazy env).get st s := by
  show _ = if env.fromMain st s then (env.main.lookup s).map .wasm else env.lookup st.target s
  unfold Env.lookup Env.shown
  cases hfrom : env.fromMain st s with
  | true =>
    obtain ⟨x, hx⟩ := Option.isSome_iff_exists.mp (env.lookup_of_fromMain hfrom)
    rw [hx]
    rfl
  | false => rfl

/-- What the proxy answers with counts as defined. -/
theorem Env.fromMain_of_not_defined {st : LazyState} {s : String}
    (h : isSymbolDefined ((lazy env).get st s) = false) :
    st.materialized = true ∨ env.main.lookup s = none := by
  have hget : (lazy env).get st s
      = if env.fromMain st s then (env.main.lookup s).map .wasm else env.lookup st.target s := rfl
  rw [hget] at h
  cases hmain : env.main.lookup s with
  | none => exact Or.inr rfl
  | some x =>
    left
    split at h
    · rw [hmain] at h
      cases h
    · next hfrom => simpa [Env.fromMain, hmain, h] using hfrom

theorem Env.shown_set {st : LazyState} {s : String} (d : Definition)
    (h : isSymbolDefined ((lazy env).get st s) = false) :
    env.shown ((lazy env).set st s d) = Function.update (env.shown st) s (some d) := by
  have hother : ∀ k, k ≠ s → env.fromMain ((lazy env).set st s d) k = env.fromMain st k := by
    intro k hk
    show (!st.materialized && _ && !isSymbolDefined (env.lookup (Function.update st.target s _) k))
      = _
    unfold Env.fromMain Env.lookup
    rw [Function.update_of_ne hk]
  have hself : env.fromMain ((lazy env).set st s d) s = false := by
    show (!st.materialized && _ && _) = false
    rcases env.fromMain_of_not_defined h with h | h <;> simp [h]
  funext k
  by_cases hk : k = s
  · subst hk
    rw [Function.update_self]
    unfold Env.shown
    rw [if_neg (by rw [hself]; decide)]
    exact Function.update_self k _ _
  · rw [Function.update_of_ne hk]
    unfold Env.shown
    rw [hother k hk]
    show (if env.fromMain st k then _ else Function.update st.target s _ k) = _
    rw [Function.update_of_ne hk]

theorem Env.shown_materialize (st : LazyState) : env.shown (env.materialize st) = env.shown st := by
  funext s
  show (if env.fromMain (env.materialize st) s then _ else env.shown st s) = env.shown st s
  rw [if_neg (by simp [Env.fromMain, Env.materialize])]

/-! ## The relation -/

/-- The eager tables that a state of the lazy glue stands for. -/
structure Stands (e : EagerState) (l : LazyState) : Prop where
  wasmImports : e.wasmImports = env.shown l
  got : e.got = env.view l.got
  libraries : e.libraries = l.libraries

section

variable {env} {e : EagerState} {l : LazyState}

theorem Stands.get (h : Stands env e l) (s : String) :
    (eager env).get e s = (lazy env).get l s := by
  rw [← env.lookup_shown, ← h.wasmImports]
  rfl

theorem Stands.has (h : Stands env e l) (s : String) :
    (eager env).has e s = (lazy env).has l s := by
  show ((e.wasmImports s).isSome || _) = ((l.target s).isSome || _ || env.fromMain l s)
  rw [h.wasmImports]
  unfold Env.shown
  split
  · next hfrom => simp [hfrom, env.lookup_of_fromMain hfrom]
  · next hfrom => simp [hfrom]

theorem Stands.define (h : Stands env e l) (s : String) (d : Definition) :
    Stands env ((eager env).define e s d) ((lazy env).define l s d) := by
  unfold Tables.define
  rw [h.get s]
  split
  · exact h
  · next hdefined =>
    refine ⟨?_, h.got, h.libraries⟩
    rw [env.shown_set d (by simpa using hdefined), ← h.wasmImports]
    rfl

theorem Stands.merge (exports : Exports) :
    ∀ {e : EagerState} {l : LazyState}, Stands env e l →
      Stands env ((eager env).merge e exports) ((lazy env).merge l exports) := by
  induction exports with
  | nil => exact fun h => h
  | cons x exports ih => exact fun h => ih (h.define x.1 (.wasm x.2))

theorem Stands.list (h : Stands env e l) :
    Agrees (Stands env) ((eager env).list e) ((lazy env).list l) := by
  refine ⟨⟨?_, h.got, h.libraries⟩, ?_⟩
  · exact h.wasmImports.trans (env.shown_materialize l).symm
  · show (fun s => (e.wasmImports s).isSome) = fun s => (env.shown l s).isSome
    rw [h.wasmImports]

theorem Stands.settle (h : Stands env e l) (s : String)
    (decide : Option Definition → Bool → Option GOTValue) :
    Agrees (Stands env) ((eager env).settle e s decide) ((lazy env).settle l s decide) := by
  have hgot : (eager env).got e s = (l.got s).or (env.mainEntry s) := congrFun h.got s
  unfold Tables.settle
  rw [hgot, h.get s]
  have hlazy : (lazy env).got l s = l.got s := rfl
  rw [hlazy]
  cases hl : l.got s with
  | none =>
    -- The entry that is not there stands for one that is set.
    dsimp only [Option.none_or]
    cases hmain : env.mainEntry s with
    | none => exact ⟨h, rfl⟩
    | some entry =>
      obtain ⟨-, x, rfl⟩ := env.mainEntry_eq hmain
      exact ⟨h, rfl⟩
  | some entry =>
    dsimp only [Option.some_or]
    split
    · split
      · refine ⟨⟨h.wasmImports, ?_, h.libraries⟩, rfl⟩
        show Function.update e.got s _ = env.view (Function.update l.got s _)
        rw [env.view_update, h.got]
      · exact ⟨h, rfl⟩
    · exact ⟨h, rfl⟩

theorem Stands.dlsym (h : Stands env e l) (handle : Nat) (s : String) :
    Agrees (Stands env) ((eager env).dlsym e handle s) ((lazy env).dlsym l handle s) := by
  have hlibrary : (eager env).library e handle = (lazy env).library l handle :=
    congrFun h.libraries handle
  unfold Tables.dlsym
  rw [hlibrary]
  cases (lazy env).library l handle with
  | none => exact ⟨h, rfl⟩
  | some lib =>
    cases lib with
    | side exports => exact ⟨h, rfl⟩
    | main =>
      obtain ⟨hstates, hkeys⟩ := h.list
      dsimp only
      rw [hkeys, hstates.get s]
      split
      · exact ⟨hstates, rfl⟩
      · exact ⟨hstates, rfl⟩

theorem Stands.perform (h : Stands env e l) (op : Op) :
    Agrees (Stands env) ((eager env).perform e op) ((lazy env).perform l op) := by
  cases op with
  | get s => exact ⟨h, congrArg Answer.found (h.get s)⟩
  | has s => exact ⟨h, congrArg Answer.test (h.has s)⟩
  | isSymbolDefined s =>
    refine ⟨h, ?_⟩
    show Answer.test (Dylink.isSymbolDefined ((eager env).get e s)) = _
    rw [h.get s]
    rfl
  | cache s d => exact ⟨h.define s d, rfl⟩
  | listed s =>
    refine ⟨h.list.states, ?_⟩
    show Answer.test (((eager env).list e).2 s) = Answer.test (((lazy env).list l).2 s)
    rw [h.list.answer]
  | mergeLibSymbols exports => exact ⟨h.merge exports, rfl⟩
  | got weak s =>
    have hview := env.view_lazyGotGet weak s l.got
    refine ⟨⟨h.wasmImports, ?_, h.libraries⟩, ?_⟩
    · show env.gotGet weak s e.got = env.view (env.lazyGotGet weak s l.got)
      rw [hview, h.got]
    · -- Both have the entry itself by now.
      show Answer.entry (((env.gotGet weak s e.got s).map (·.value)).getD .unset)
        = Answer.entry (((env.lazyGotGet weak s l.got s).map (·.value)).getD .unset)
      unfold Env.lazyGotGet Env.gotGet
      rw [Function.update_self, Function.update_self, env.gotFromMain_self, h.got]
  | updateGOT exports replace =>
    refine ⟨⟨h.wasmImports, ?_, h.libraries⟩, rfl⟩
    show env.updateGOT exports replace e.got = env.view (env.lazyUpdateGOT exports replace l.got)
    rw [env.view_lazyUpdateGOT, h.got]
  | settle s decide => exact h.settle s decide
  | newDSO handle exports =>
    refine ⟨⟨h.wasmImports, h.got, ?_⟩, rfl⟩
    show Function.update e.libraries _ _ = Function.update l.libraries _ _
    rw [h.libraries]
  | dlsym handle s => exact h.dlsym handle s

end

/-! ## Startup -/

/-- `mergeLibSymbols` stores the exports that are not defined, and nothing else. -/
theorem Env.merge_eq (exports : Exports) :
    ∀ st : EagerState, (eager env).merge st exports = { st with
      wasmImports := fun k =>
        if (exports.lookup k).isSome && !isSymbolDefined (env.lookup st.wasmImports k)
        then (exports.lookup k).map .wasm else st.wasmImports k } := by
  induction exports with
  | nil =>
    intro st
    rfl
  | cons x exports ih =>
    intro st
    show (eager env).merge ((eager env).define st x.1 (.wasm x.2)) exports = _
    rw [ih]
    have hget : (eager env).get st x.1 = env.lookup st.wasmImports x.1 := rfl
    unfold Tables.define
    rw [hget]
    split
    · next hdefined =>
      congr 1
      funext k
      by_cases hk : k = x.1
      · subst hk
        simp [hdefined]
      · rw [List.lookup_cons, beq_false_of_ne hk]
    · next hdefined =>
      congr 1
      funext k
      show (if _ && !isSymbolDefined (env.lookup (Function.update st.wasmImports x.1 _) k)
        then _ else Function.update st.wasmImports x.1 _ k) = _
      by_cases hk : k = x.1
      · subst hk
        have hstored : env.lookup (Function.update st.wasmImports x.1 (some (.wasm x.2))) x.1
            = some (.wasm x.2) := by
          rw [Env.lookup, Function.update_self]
        have hwasm : isSymbolDefined (some (.wasm x.2)) = true := rfl
        rw [hstored, Function.update_self, List.lookup_cons_self, hwasm,
          eq_false_of_ne_true hdefined]
        simp
      · rw [List.lookup_cons, beq_false_of_ne hk]
        unfold Env.lookup
        rw [Function.update_of_ne hk]

theorem Env.ownImports_eq_none {requests : List (Bool × String)} {s : String}
    (h : s ∉ requests.map (·.2)) : env.ownImports requests s = none := by
  suffices hfold : ∀ got : GOT, got s = none →
      requests.foldl (fun got r => env.gotGet r.1 r.2 got) got s = none from hfold _ rfl
  induction requests with
  | nil => exact fun _ hgot => hgot
  | cons r requests ih =>
    rw [List.map_cons, List.mem_cons, not_or] at h
    intro got hgot
    refine ih h.2 _ ?_
    show Function.update got r.2 _ s = none
    rw [Function.update_of_ne h.1, hgot]

/-- What `updateGOT(mainExports)` of the lazy glue makes of an entry. -/
def Env.fillOwn (s : String) (own : Option Entry) : Option Entry :=
  match env.main.lookup s, own with
  | some x, some e => env.fill false s x (some e)
  | _, own => own

theorem Env.fillOwn_fillOwn (s : String) (own : Option Entry) :
    env.fillOwn s (env.fillOwn s own) = env.fillOwn s own := by
  unfold Env.fillOwn
  cases env.main.lookup s with
  | none => rfl
  | some x =>
    cases own with
    | none => rfl
    | some e =>
      obtain ⟨e', he'⟩ := Option.isSome_iff_exists.mp
        (@Env.fill_isSome env false s x (some e) rfl)
      dsimp only
      rw [he']
      dsimp only
      rw [← he', env.fill_fill]

theorem Env.lazyUpdateMain_apply (names : List String) (got : GOT) (k : String) :
    env.lazyUpdateMain names got k = if k ∈ names then env.fillOwn k (got k) else got k := by
  unfold Env.lazyUpdateMain
  rw [← foldl_update_apply env.fillOwn env.fillOwn_fillOwn]
  refine congrFun (List.foldl_ext _ _ got ?_) k
  intro got s _
  cases hx : env.main.lookup s with
  | none =>
    have hown : env.fillOwn s (got s) = got s := by simp only [Env.fillOwn, hx]
    rw [hown, Function.update_eq_self]
  | some x =>
    cases he : got s with
    | none =>
      have hown : env.fillOwn s none = got s := by simp only [Env.fillOwn, hx, he]
      rw [hown, Function.update_eq_self]
    | some e =>
      have hown : env.fillOwn s (some e) = env.fill false s x (got s) := by
        simp only [Env.fillOwn, hx, he]
      rw [hown]
      dsimp only
      split
      · rfl
      · next hcond =>
        have hfill : env.fill false s x (got s) = got s := by
          rw [he]
          unfold Env.fill
          split
          · rfl
          · next hint => simp_all [Env.entryAt]
        rw [hfill, Function.update_eq_self]

/-- The two glues start in states that stand for each other. -/
theorem stands_start (wasmImports : Table) (requests : List (Bool × String)) :
    Stands env (env.eagerStart wasmImports requests) (env.lazyStart wasmImports requests) := by
  unfold Env.eagerStart
  rw [env.merge_eq]
  refine ⟨rfl, ?_, rfl⟩
  funext k
  show env.updateGOT env.main false (env.ownImports requests) k
    = (env.lazyUpdateMain _ (env.ownImports requests) k).or (env.mainEntry k)
  rw [env.lazyUpdateMain_apply, Env.updateGOT]
  unfold Env.updateSymbol
  rw [foldl_update_lookup (env.fill false) k env.main _ env.nodup]
  unfold Env.fillOwn Env.mainEntry
  cases env.main.lookup k with
  | none =>
    dsimp only
    rw [ite_self, Option.or_none]
  | some x =>
    dsimp only
    by_cases hk : k ∈ requests.map (·.2)
    · rw [if_pos hk]
      cases env.ownImports requests k with
      | none => rw [Option.none_or]
      | some e =>
        obtain ⟨e', he'⟩ := Option.isSome_iff_exists.mp
          (@Env.fill_isSome env false k x (some e) rfl)
        dsimp only
        rw [he', Option.some_or]
    · rw [if_neg hk, env.ownImports_eq_none hk, Option.none_or]

end Haybarn.Dylink
