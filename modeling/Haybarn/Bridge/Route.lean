import Mathlib

/-!
# Where an ensure request goes

The first half of the `vgi-ensure-worker` handler in `webworker-bridge.ts`: from the
location that SQL names to the worker that is to serve it. What the application
configures (`resolveWorkerUrl`, `resolveAdapterTarget`, `resolveIrohTarget`) is a
field of `Options`; a resolver that throws is one that gives `none`.

`new URL` and the case folding of non-ASCII letters are the browser's, so
`resolveWorkerUrl` stays a parameter and `toLowerCase` is Lean's on ASCII, which is
all the two scheme tests can see.
-/

namespace Haybarn.Bridge

/-- `VgiAdapterTarget`. -/
structure AdapterTarget where
  adapterUrl : String
  adapterKey : String
  canonicalTarget : String
  deriving DecidableEq, Repr

/-- `VgiWebWorkerBridgeOptions`, as far as routing reads it. -/
structure Options where
  /-- `opts.resolveWorkerUrl`, or the default that allows the page's own origin. -/
  resolveWorkerUrl : String → Option String
  /-- `opts.resolveAdapterTarget`, when it is set. -/
  resolveAdapterTarget : Option (String → Option AdapterTarget)
  /-- An `irohAdapterWorker` is set. -/
  irohAdapterWorker : Bool
  /-- `opts.resolveIrohTarget`, when it is set. -/
  resolveIrohTarget : Option (String → Option String)
  /-- `self.location.href`. -/
  pageUrl : String
  maxTargetsPerAdapter : Nat
  /-- The constructor throws unless the limit is a positive integer. -/
  max_pos : 0 < maxTargetsPerAdapter

/-- Where a request goes. -/
inductive Route
  | reject
  /-- An adapter worker; `app` when it is the application's own. -/
  | adapter (key url target : String) (app : Bool)
  /-- The worker of a URL. -/
  | legacy (url : String)
  deriving DecidableEq, Repr

/-- `value.length`: UTF-16 code units. -/
def jsLength (value : String) : Nat :=
  (value.toList.map fun c => if c.toNat < 0x10000 then 1 else 2).sum

/-- `validName`. -/
def validName (value : String) : Bool :=
  jsLength value ≠ 0 && jsLength value ≤ 4096 &&
    value.toList.all fun c => !(c.toNat < 0x20 || c.toNat == 0x7f)

/-- `[0-9a-f]`. -/
def isHexDigit (c : Char) : Bool := ('0' ≤ c && c ≤ '9') || ('a' ≤ c && c ≤ 'f')

/-- `[A-Za-z0-9._~!$&'()*+,;=:@-]`. -/
def isPathChar (c : Char) : Bool :=
  c.isAlphanum || ".~_!$&'()*+,;=:@-".toList.contains c

/-- `^[0-9a-f]{64}$`. -/
def isEndpointId (cs : List Char) : Bool := cs.length == 64 && cs.all isHexDigit

/-- `canonicalIrohTarget`: `iroh://` and an endpoint id. -/
def canonicalIrohTarget (value : String) : Option String :=
  if "iroh://".toList.isPrefixOf value.toList && isEndpointId (value.toList.drop 7) then some value
  else none

/-- What may follow the endpoint id of an `httpi` target: nothing, or segments of path
characters, each after a slash. -/
def isHttpiPath (cs : List Char) : Bool :=
  match cs with
  | [] => true
  | '/' :: rest => (rest.splitOn '/').all fun seg => !seg.isEmpty && seg.all isPathChar
  | _ => false

/-- `canonicalHttpiTarget`. -/
def canonicalHttpiTarget (value : String) : Option String :=
  if "httpi://".toList.isPrefixOf value.toList && isEndpointId ((value.toList.drop 8).take 64) &&
      isHttpiPath (value.toList.drop 72) then some value
  else none

/-- `canonicalBuiltInIrohTarget`. -/
def canonicalBuiltInIrohTarget (value : String) : Option String :=
  canonicalIrohTarget value <|> canonicalHttpiTarget value

/-- `value.split(':', 1)[0]`. -/
def scheme (value : String) : List Char := value.toList.takeWhile (· ≠ ':')

/-- The key of the application's own adapter. -/
def appAdapterKey : String := "__vgi_application_iroh_adapter_v1__"

variable (opts : Options)

/-- The branch for `iroh://` and `httpi://` locations. -/
def routeIroh (location : String) : Route :=
  match canonicalBuiltInIrohTarget location with
  | none => .reject
  | some canonical =>
    if opts.irohAdapterWorker then
      let resolved := match opts.resolveIrohTarget with
        | some resolve => resolve canonical
        | none => some canonical
      match resolved.bind canonicalBuiltInIrohTarget with
      | none => .reject
      | some resolvedCanonical =>
        if scheme resolvedCanonical = scheme canonical && validName resolvedCanonical then
          .adapter appAdapterKey opts.pageUrl resolvedCanonical true
        else .reject
    else .reject

/-- The branch for an application's adapter resolver. -/
def routeAdapter (resolve : String → Option AdapterTarget) (location : String) : Route :=
  match resolve location with
  | none => .reject
  | some requested =>
    if validName requested.adapterKey && validName requested.canonicalTarget then
      match opts.resolveWorkerUrl requested.adapterUrl with
      | none => .reject
      | some adapterUrl => .adapter requested.adapterKey adapterUrl requested.canonicalTarget false
    else .reject

/-- Where a request for `location` goes. -/
def route (location : String) : Route :=
  let lower := location.toLower.toList
  if "iroh://".toList.isPrefixOf lower || "httpi://".toList.isPrefixOf lower then
    routeIroh opts location
  else match opts.resolveAdapterTarget with
    | some resolve => routeAdapter opts resolve location
    | none => match opts.resolveWorkerUrl location with
      | some url => .legacy url
      | none => .reject

/-- Only the application's own adapter is one the bridge did not spawn. -/
theorem route_app {location key url target : String}
    (h : route opts location = .adapter key url target true) : key = appAdapterKey := by
  unfold route at h
  dsimp only at h
  split at h
  · unfold routeIroh at h
    split at h
    · cases h
    · split at h
      · dsimp only at h
        split at h
        · cases h
        · split at h
          · cases h
            rfl
          · cases h
      · cases h
  · split at h
    · unfold routeAdapter at h
      split at h
      · cases h
      · split at h
        · split at h
          · cases h
          · cases h
        · cases h
    · split at h
      · cases h
      · cases h

end Haybarn.Bridge
