import Haybarn.Lib.Lockstep

/-!
# Dynamic linking, eager and lazy

Emscripten's glue keeps two tables: `wasmImports`, where side modules and `dlsym` find symbols,
and `GOT`, with the addresses of symbols. The glue fills both with all exports of the main module
at startup. `patch_dylink_glue.cjs` makes it look them up on first use: `wasmImports` becomes a
proxy in front of the exports, and `GOTHandler.get` and `updateGOT` fetch entries from them.

The glue code itself is the same in both; it is written here once, over the table accesses that
differ (`Tables`). `eager` and `lazy` are the two kinds of access, and `perform` is what the glue
does with them.

Mirroring notes:
- An object is the function from its own properties; a property that it does not have may still
  be one of `Object.prototype` (`inherited`). The exports of an instance inherit nothing.
- `GOT` is about definitions: an entry is not set (-1), null (0), or the address of a definition,
  which for a function is the table slot that `addFunction` finds or makes.
- The exports of the main module are fixed, and none of them has a `stub` property, which only
  functions of the glue have.
- What the rest of emscripten does between the accesses is up to the operations: they may come in
  any order, `cache` stores whatever `resolveGlobalSymbol` has made for a symbol that is not
  defined, and `settle` what `reportUndefinedSymbols` decides about an entry that is not set.
- A symbol index, which `dlsym` hands to the other threads, is not part of the answers.
- `applySignatureConversions` is left out: it is about the names that the JavaScript code calls.
-/

namespace Haybarn.Dylink

/-- `typeof value`, and for an object `typeof value.value`. -/
inductive Kind
  | function
  | number
  | other
  deriving DecidableEq, Repr

/-- An export of an instance. -/
structure Export where
  id : Nat
  kind : Kind
  deriving DecidableEq, Repr

abbrev Exports := List (String × Export)

/-- A value in `wasmImports`: an export, or what the glue itself defines. -/
inductive Definition
  | wasm (e : Export)
  | js (id : Nat) (stub : Bool)
  deriving DecidableEq, Repr

def Definition.stub : Definition → Bool
  | .wasm _ => false
  | .js _ stub => stub

abbrev Table := String → Option Definition

/-- The value of a GOT entry. -/
inductive GOTValue
  /-- -1 -/
  | unset
  | null
  | address (d : Definition)
  /-- `undefined`: the entry is a property of `Object.prototype`. -/
  | inherited
  deriving DecidableEq, Repr

structure Entry where
  value : GOTValue
  required : Bool
  deriving DecidableEq, Repr

abbrev GOT := String → Option Entry

/-- What does not change. -/
structure Env where
  /-- `__hbMainExports`, and `origExports` in the unpatched glue. -/
  main : Exports
  nodup : (main.map (·.1)).Nodup
  /-- The properties of `Object.prototype`. -/
  inherited : String → Option Nat
  isInternalSym : String → Bool

/-- The exports of a loaded library. Those of the main program are `wasmImports` itself. -/
inductive Library
  | main
  | side (exports : Exports)

variable (env : Env)

/-! ## Objects -/

/-- `object[s]` for a table. -/
def Env.lookup (table : Table) (s : String) : Option Definition :=
  match table s with
  | some d => some d
  | none => (env.inherited s).map fun id => .js id false

/-- `isSymbolDefined`, for what `wasmImports[s]` is. -/
def isSymbolDefined : Option Definition → Bool
  | none => false
  | some d => !d.stub

/-- `GOT[s]` -/
def Env.entryAt (s : String) (own : Option Entry) : Option Entry :=
  match own with
  | some e => some e
  | none => (env.inherited s).map fun _ => ⟨.inherited, false⟩

/-! ## The GOT of the unpatched glue -/

/-- What `updateGOT` makes of the entry of one symbol. -/
def Env.fill (replace : Bool) (s : String) (x : Export) (own : Option Entry) : Option Entry :=
  if env.isInternalSym s then own
  else
    let existingEntry := (env.entryAt s own).any fun e => e.value ≠ .unset
    if replace || !existingEntry then
      if x.kind = .other then own
      else some ⟨.address (.wasm x), ((env.entryAt s own).map (·.required)).getD false⟩
    else own

def Env.updateSymbol (replace : Bool) (got : GOT) (export_ : String × Export) : GOT :=
  Function.update got export_.1 (env.fill replace export_.1 export_.2 (got export_.1))

/-- `updateGOT` -/
def Env.updateGOT (exports : Exports) (replace : Bool) (got : GOT) : GOT :=
  exports.foldl (env.updateSymbol replace) got

/-- What `GOTHandler.get` makes of an entry. -/
def Env.demand (weak : Bool) (s : String) (own : Option Entry) : Entry :=
  let e := (env.entryAt s own).getD ⟨.unset, false⟩
  { e with required := e.required || !weak }

/-- `GOTHandler.get` -/
def Env.gotGet (weak : Bool) (s : String) (got : GOT) : GOT :=
  Function.update got s (some (env.demand weak s (got s)))

/-! ## The GOT of the patched glue -/

/-- `__hbGOTFromMain` -/
def Env.gotFromMain (got : GOT) (s : String) : GOT :=
  match env.main.lookup s with
  | some x =>
    if (env.entryAt s (got s)).isNone && !env.isInternalSym s then
      env.updateSymbol false got (s, x)
    else got
  | none => got

def Env.lazyGotGet (weak : Bool) (s : String) (got : GOT) : GOT :=
  env.gotGet weak s (env.gotFromMain got s)

def Env.lazyUpdateGOT (exports : Exports) (replace : Bool) (got : GOT) : GOT :=
  env.updateGOT exports replace
    (if replace then got else (exports.map (·.1)).foldl env.gotFromMain got)

/-- `updateGOT(mainExports)`, for the names that `GOT` has. -/
def Env.lazyUpdateMain (names : List String) (got : GOT) : GOT :=
  names.foldl (fun got s =>
    match env.main.lookup s, got s with
    | some x, some e =>
      if !env.isInternalSym s && e.value = .unset then env.updateSymbol false got (s, x) else got
    | _, _ => got) got

/-! ## The tables -/

/-- The accesses to the tables. -/
structure Tables (S : Type) where
  /-- `wasmImports[s]` -/
  get : S → String → Option Definition
  /-- `s in wasmImports` -/
  has : S → String → Bool
  /-- `wasmImports[s] = d` -/
  set : S → String → Definition → S
  /-- `Object.keys(wasmImports)`: the own properties, after what happens when they are listed. -/
  list : S → S × (String → Bool)
  got : S → GOT
  gotGet : S → Bool → String → S
  updateGOT : S → Exports → Bool → S
  setEntry : S → String → Entry → S
  /-- `LDSO.loadedLibsByHandle` -/
  library : S → Nat → Option Library
  setLibrary : S → Nat → Library → S

structure EagerState where
  wasmImports : Table
  got : GOT
  libraries : Nat → Option Library

def eager : Tables EagerState where
  get st s := env.lookup st.wasmImports s
  has st s := (st.wasmImports s).isSome || (env.inherited s).isSome
  set st s d := { st with wasmImports := Function.update st.wasmImports s (some d) }
  list st := (st, fun s => (st.wasmImports s).isSome)
  got st := st.got
  gotGet st weak s := { st with got := env.gotGet weak s st.got }
  updateGOT st exports replace := { st with got := env.updateGOT exports replace st.got }
  setEntry st s e := { st with got := Function.update st.got s (some e) }
  library st := st.libraries
  setLibrary st handle lib :=
    { st with libraries := Function.update st.libraries handle (some lib) }

/-- `target` is the object behind the proxy; `materialized` says that the proxy is gone. -/
structure LazyState where
  target : Table
  materialized : Bool
  got : GOT
  libraries : Nat → Option Library

/-- `h`: the proxy answers with the export of the main module. -/
def Env.fromMain (st : LazyState) (s : String) : Bool :=
  !st.materialized && (env.main.lookup s).isSome && !isSymbolDefined (env.lookup st.target s)

/-- The own properties that the proxy shows. -/
def Env.shown (st : LazyState) : Table := fun s =>
  if env.fromMain st s then (env.main.lookup s).map .wasm else st.target s

/-- `__hbMaterialize` -/
def Env.materialize (st : LazyState) : LazyState :=
  { st with target := env.shown st, materialized := true }

def lazy : Tables LazyState where
  get st s :=
    if env.fromMain st s then (env.main.lookup s).map .wasm else env.lookup st.target s
  has st s := (st.target s).isSome || (env.inherited s).isSome || env.fromMain st s
  set st s d := { st with target := Function.update st.target s (some d) }
  list st := (env.materialize st, fun s => ((env.materialize st).target s).isSome)
  got st := st.got
  gotGet st weak s := { st with got := env.lazyGotGet weak s st.got }
  updateGOT st exports replace := { st with got := env.lazyUpdateGOT exports replace st.got }
  setEntry st s e := { st with got := Function.update st.got s (some e) }
  library st := st.libraries
  setLibrary st handle lib :=
    { st with libraries := Function.update st.libraries handle (some lib) }

/-! ## The glue -/

inductive Op
  /-- `wasmImports[s]`, as `resolveGlobalSymbol` and the imports of side modules read it. -/
  | get (s : String)
  | has (s : String)
  | isSymbolDefined (s : String)
  | cache (s : String) (d : Definition)
  /-- `s` is one of `Object.keys(wasmImports)`. -/
  | listed (s : String)
  | mergeLibSymbols (exports : Exports)
  /-- `GOTHandler.get`, and the value that the entry has. -/
  | got (weak : Bool) (s : String)
  | updateGOT (exports : Exports) (replace : Bool)
  | settle (s : String) (decide : Option Definition → Bool → Option GOTValue)
  | newDSO (handle : Nat) (exports : Exports)
  | dlsym (handle : Nat) (s : String)

inductive Answer
  | done
  | found (d : Option Definition)
  | test (b : Bool)
  | entry (value : GOTValue)
  | threw
  deriving DecidableEq, Repr

section

variable {S : Type} (T : Tables S)

/-- Store a symbol unless it is defined. -/
def Tables.define (st : S) (s : String) (d : Definition) : S :=
  if Dylink.isSymbolDefined (T.get st s) then st else T.set st s d

/-- `mergeLibSymbols` -/
def Tables.merge (st : S) (exports : Exports) : S :=
  exports.foldl (fun st x => T.define st x.1 (.wasm x.2)) st

/-- `_dlsym_js` -/
def Tables.dlsym (st : S) (handle : Nat) (s : String) : S × Answer :=
  match T.library st handle with
  | none => (st, .threw)
  | some (.side exports) => (st, .found ((exports.lookup s).map .wasm))
  | some .main =>
    let (st, keys) := T.list st
    if keys s && Dylink.isSymbolDefined (T.get st s) then (st, .found (T.get st s))
    else (st, .found none)

/-- An entry that is not set may be given a value. -/
def Tables.settle (st : S) (s : String) (decide : Option Definition → Bool → Option GOTValue) :
    S × Answer :=
  match T.got st s with
  | some e =>
    if e.value = .unset then
      match decide (T.get st s) e.required with
      | some value => (T.setEntry st s { e with value }, .entry value)
      | none => (st, .threw)
    else (st, .done)
  | none => (st, .done)

def Tables.perform (st : S) : Op → S × Answer
  | .get s => (st, .found (T.get st s))
  | .has s => (st, .test (T.has st s))
  | .isSymbolDefined s => (st, .test (Dylink.isSymbolDefined (T.get st s)))
  | .cache s d => (T.define st s d, .done)
  | .listed s => ((T.list st).1, .test ((T.list st).2 s))
  | .mergeLibSymbols exports => (T.merge st exports, .done)
  | .got weak s =>
    let st := T.gotGet st weak s
    (st, .entry (((T.got st s).map (·.value)).getD .unset))
  | .updateGOT exports replace => (T.updateGOT st exports replace, .done)
  | .settle s decide => T.settle st s decide
  | .newDSO handle exports => (T.setLibrary st handle (.side exports), .done)
  | .dlsym handle s => T.dlsym st handle s

end

/-! ## Startup -/

/-- The GOT imports of the main module, before it has exports. -/
def Env.ownImports (requests : List (Bool × String)) : GOT :=
  requests.foldl (fun got r => env.gotGet r.1 r.2 got) fun _ => none

/-- `mergeLibSymbols(wasmExports, "main")`, `LDSO.init()`, `updateGOT(origExports)`. -/
def Env.eagerStart (wasmImports : Table) (requests : List (Bool × String)) : EagerState :=
  (eager env).updateGOT ((eager env).setLibrary ((eager env).merge
    { wasmImports, got := env.ownImports requests, libraries := fun _ => none } env.main) 0 .main)
    env.main false

def Env.lazyStart (wasmImports : Table) (requests : List (Bool × String)) : LazyState where
  target := wasmImports
  materialized := false
  got := env.lazyUpdateMain (requests.map (·.2)) (env.ownImports requests)
  libraries := Function.update (fun _ => none) 0 (some .main)

end Haybarn.Dylink
