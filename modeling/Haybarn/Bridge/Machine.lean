import Haybarn.Bridge.Route

/-!
# The page bridge, one task at a time

`installVgiWebWorkerBridge` on the page's event loop. An event is a task or a chain of
microtasks that runs without anything else of the page in between: a request arrives,
a worker has been spawned, a worker's message is handled, a queued registration
begins, a timer fires. Promises are states that a later event continues.

Mirroring notes:
- `adapters`, `pendingAdapters`, `workers` and `pending` are the four maps. `regions` is
  a `Map` in insertion order.
- `registrationQueue` is a chain of promises: an operation begins when the one before
  it has settled. Settled operations stay in the list.
- A message no listener reacts to is no event. A reply whose `requestId` nobody waits
  for any more (it came after the timeout) is one that changes nothing.
- Workers, buffers and requests are named by numbers; `===` on them is equality.
- `requests`, `log`, `terminated` and `signals` record what has happened; the bridge does
  not read them.
-/

namespace Haybarn.Bridge

abbrev WorkerId := Nat

/-- A channel: the shared buffer and the byte offset in it. -/
structure Region where
  buffer : Nat
  offset : Int
  deriving DecidableEq, Repr

structure TargetRegion where
  target : String
  region : Region
  lastUsed : Nat
  deriving DecidableEq, Repr

/-- A message the bridge posts to a worker. -/
inductive Msg
  | init (target : Option String) (region : Region)
  | register (requestId : Nat) (target : String) (region : Region)
  | unregister (target : String) (offset : Int)
  deriving DecidableEq, Repr

/-- A message a worker posts. -/
inductive Reply
  | ready
  | error
  | targetReady (requestId : Nat)
  | targetError (requestId : Nat)
  deriving DecidableEq, Repr

/-- A registration: queued, posted and waiting for its reply, or over. -/
inductive Status
  | waiting
  | awaiting (requestId : Nat) (next : TargetRegion)
  | settled
  deriving DecidableEq, Repr

/-- One entry of the record of what the bridge and its workers have told each other. -/
inductive Exchange
  | sent (m : Msg)
  | got (r : Reply)
  deriving DecidableEq, Repr

/-- One `ensureAdapterRegion`. -/
structure Operation where
  req : Nat
  target : String
  region : Region
  status : Status
  deriving DecidableEq, Repr

structure AdapterEntry where
  url : String
  worker : WorkerId
  regions : List TargetRegion
  operations : List Operation

/-- A request that joined a boot in progress, to be finished when it is over. -/
structure Joined where
  req : Nat
  target : String
  region : Region
  url : String

/-- An adapter's boot: `worker` is set once `vgi-init` is posted. -/
structure AdapterBoot where
  url : String
  app : Bool
  worker : Option WorkerId
  firstRegion : TargetRegion
  req : Nat
  joined : List Joined

/-- A legacy worker's boot; `reqs` are all requests that wait for it. -/
structure LegacyBoot where
  worker : Option WorkerId
  region : Region
  reqs : List Nat

structure Request where
  location : String
  region : Region
  deriving DecidableEq, Repr

structure State where
  workers : String → Option WorkerId
  pending : String → Option LegacyBoot
  /-- The URL for which `onMsg` listens on a worker. -/
  listening : WorkerId → Option String
  adapters : String → Option AdapterEntry
  pendingAdapters : String → Option AdapterBoot
  touch : Nat
  registrationSequence : Nat
  nextWorker : WorkerId
  requests : List Request
  log : List (WorkerId × Exchange)
  terminated : List WorkerId
  signals : List (Nat × Bool)

/-- The application's own adapter worker. -/
def appWorker : WorkerId := 0

/-- Nothing has happened; worker `0` is the application's. -/
def State.initial : State where
  workers _ := none
  pending _ := none
  listening _ := none
  adapters _ := none
  pendingAdapters _ := none
  touch := 0
  registrationSequence := 0
  nextWorker := 1
  requests := []
  log := []
  terminated := []
  signals := []

/-! ## The idle check -/

/-- The Int32 lanes of a buffer, each as the one load that looks at it sees it. -/
structure Lanes where
  length : Nat
  lane : Nat → Int32

/-- The lane that holds a slot's STATE: the sum is an exact number, `>> 2` takes it
modulo 2^32. -/
def stateLane (offset : Int) (slotsOff stride : Int32) (slot : Nat) : Int :=
  (Int32.ofInt (offset + slotsOff.toInt + slot * stride.toInt)).toInt / 4

/-- The lane of a header field; `region.offset >> 2`. -/
def headerLane (offset : Int) (field : Nat) : Int := (Int32.ofInt offset).toInt / 4 + field

/-- The load of a lane, `0` where `Atomics.load` would throw. -/
def Lanes.load (mem : Lanes) (i : Int) : Int32 := mem.lane i.toNat

/-- An index of the array. -/
def Lanes.valid (mem : Lanes) (i : Int) : Bool := 0 ≤ i && i < mem.length

/-- `Number.isSafeInteger`. -/
def isSafeInteger (x : Int) : Bool := -9007199254740991 ≤ x && x ≤ 9007199254740991

/-- `regionIsIdle`. -/
def regionIsIdle (region : Region) (mem : Lanes) : Bool :=
  isSafeInteger region.offset && 0 ≤ region.offset && region.offset % 4 = 0 &&
    (let nSlots := mem.load (headerLane region.offset 2)
     let stride := mem.load (headerLane region.offset 4)
     let slotsOff := mem.load (headerLane region.offset 5)
     [2, 4, 5].all (fun field => mem.valid (headerLane region.offset field)) &&
       !(nSlots.toInt ≤ 0 || 1024 < nSlots.toInt || stride.toInt < 64 || slotsOff.toInt < 64) &&
       (List.range nSlots.toInt.toNat).all fun slot =>
         mem.valid (stateLane region.offset slotsOff stride slot) &&
           mem.load (stateLane region.offset slotsOff stride slot) = 0)

/-! ## Events -/

inductive Event
  /-- A `vgi-ensure-worker` message. -/
  | ensure (location : String) (region : Region)
  /-- The worker of an adapter boot exists, or its script could not be fetched. -/
  | spawned (key : String) (ok : Bool)
  /-- The booting adapter posts `vgi-ready` or `vgi-error`. -/
  | bootReply (key : String) (ok : Bool)
  /-- Operation `i` of an adapter begins; the loads of its two rounds of idle checks see
  `first` and `second`. -/
  | begin (key : String) (i : Nat) (first second : Region → Lanes)
  /-- The adapter answers a registration. -/
  | registrationReply (key : String) (requestId : Nat) (ok : Bool)
  /-- The 30 s timer of operation `i` fires. -/
  | timeout (key : String) (i : Nat)
  /-- The worker of a legacy boot exists, or its script could not be fetched. -/
  | legacySpawned (url : String) (ok : Bool)
  /-- A legacy worker posts `vgi-ready` or `vgi-error`. -/
  | legacyReply (worker : WorkerId) (ok : Bool)

namespace State

/-- `signal`. -/
def signal (s : State) (req : Nat) (ok : Bool) : State :=
  { s with signals := s.signals ++ [(req, ok)] }

def signalAll (s : State) (reqs : List Nat) (ok : Bool) : State :=
  { s with signals := s.signals ++ reqs.map fun req => (req, ok) }

def post (s : State) (w : WorkerId) (ms : List Msg) : State :=
  { s with log := s.log ++ ms.map fun m => (w, .sent m) }

def receive (s : State) (w : WorkerId) (r : Reply) : State :=
  { s with log := s.log ++ [(w, .got r)] }

def setEntry (s : State) (key : String) (entry : AdapterEntry) : State :=
  { s with adapters := Function.update s.adapters key (some entry) }

def setBoot (s : State) (key : String) (boot : Option AdapterBoot) : State :=
  { s with pendingAdapters := Function.update s.pendingAdapters key boot }

def setPending (s : State) (url : String) (boot : Option LegacyBoot) : State :=
  { s with pending := Function.update s.pending url boot }

end State

/-! ## The handlers -/

/-- `finish`: queue the registration, unless the adapter has another script. -/
def finish (s : State) (key : String) (entry : AdapterEntry) (j : Joined) : State :=
  if entry.url = j.url then
    s.setEntry key { entry with
      operations := entry.operations ++
        [{ req := j.req, target := j.target, region := j.region, status := .waiting }] }
  else s.signal j.req false

/-- `finish` for the requests that joined a boot, one after the other. -/
def finishAll (key : String) : List Joined → State → State
  | [], s => s
  | j :: js, s =>
    match s.adapters key with
    | some entry => finishAll key js (finish s key entry j)
    | none => s

/-- A request for an adapter target. -/
def ensureAdapter (s : State) (req : Nat) (region : Region) (key url target : String)
    (app : Bool) : State :=
  if isSafeInteger region.offset then
    match s.adapters key with
    | some entry => finish s key entry { req, target, region, url }
    | none =>
      match s.pendingAdapters key with
      | some boot => s.setBoot key (some { boot with
          joined := boot.joined ++ [{ req, target, region, url }] })
      | none =>
        { s with touch := s.touch + 1 }.setBoot key (some {
          url, app, worker := none, req, joined := []
          firstRegion := { target, region, lastUsed := s.touch + 1 } })
  else s.signal req false

/-- A request for the worker of a URL. -/
def ensureLegacy (s : State) (req : Nat) (region : Region) (url : String) : State :=
  match s.workers url with
  | some _ => s.signal req true
  | none =>
    match s.pending url with
    | some boot => s.setPending url (some { boot with reqs := boot.reqs ++ [req] })
    | none => s.setPending url (some { worker := none, region, reqs := [req] })

/-- The handler of `vgi-ensure-worker`. -/
def ensure (opts : Options) (s : State) (location : String) (region : Region) : State :=
  let req := s.requests.length
  let s := { s with requests := s.requests ++ [{ location, region }] }
  match route opts location with
  | .reject => s.signal req false
  | .adapter key url target app => ensureAdapter s req region key url target app
  | .legacy url => ensureLegacy s req region url

/-- A boot that failed: nobody is served. -/
def bootFailed (s : State) (key : String) (boot : AdapterBoot) : State :=
  (s.setBoot key none).signalAll (boot.req :: boot.joined.map (·.req)) false

/-- The worker of a boot exists: listen, and post `vgi-init`. -/
def spawned (s : State) (key : String) (boot : AdapterBoot) : State :=
  let w := if boot.app then appWorker else s.nextWorker
  { s with nextWorker := if boot.app then s.nextWorker else s.nextWorker + 1 }.setBoot key
    (some { boot with worker := some w })
    |>.post w [.init (some boot.firstRegion.target) boot.firstRegion.region]

/-- `vgi-ready`: the adapter is there, with its first region. -/
def bootReady (s : State) (key : String) (boot : AdapterBoot) (w : WorkerId) : State :=
  let entry := { url := boot.url, worker := w, regions := [boot.firstRegion], operations := [] }
  finishAll key boot.joined
    ((((s.receive w .ready).setEntry key entry).setBoot key none).signal boot.req true)

/-- `vgi-error`: a worker the bridge spawned is terminated. -/
def bootError (s : State) (key : String) (boot : AdapterBoot) (w : WorkerId) : State :=
  let s := s.receive w .error
  bootFailed { s with terminated := if boot.app then s.terminated else w :: s.terminated } key boot

/-! ## Registration -/

/-- `regions.get(target)`. -/
def current (regions : List TargetRegion) (target : String) : Option TargetRegion :=
  regions.find? (·.target = target)

/-- The regions that stand in the way: the target's own, and every other one on the
same channel. -/
def conflicts (regions : List TargetRegion) (target : String) (region : Region) :
    List TargetRegion :=
  (current regions target).toList ++
    regions.filter fun r => some r ≠ current regions target ∧ r.region = region

/-- The idle region used least recently. -/
def victim (regions : List TargetRegion) (mem : Region → Lanes) : Option TargetRegion :=
  ((regions.filter fun r => regionIsIdle r.region (mem r.region)).mergeSort
    fun a b => a.lastUsed ≤ b.lastUsed).head?

/-- What has to go before the region can be registered, or `none` when nothing can. -/
def displaced (max : Nat) (regions : List TargetRegion) (target : String) (region : Region)
    (first : Region → Lanes) : Option (List TargetRegion) :=
  if current regions target = none ∧ conflicts regions target region = [] ∧
      max ≤ regions.length then
    (victim regions first).map fun v => [v]
  else some (conflicts regions target region)

/-- `operations` with the status of operation `i` replaced. -/
def setStatus (ops : List Operation) (i : Nat) (status : Status) : List Operation :=
  ops.modify i fun op => { op with status }

/-- The promise an operation waits for has settled. -/
def predecessorSettled (ops : List Operation) (i : Nat) : Bool :=
  i = 0 || (ops[i - 1]?.map (·.status)) = some .settled

/-- An operation ends without a registration. -/
def settle (s : State) (key : String) (entry : AdapterEntry) (i req : Nat) (ok : Bool) : State :=
  (s.setEntry key { entry with operations := setStatus entry.operations i .settled }).signal req ok

/-- The target already has this region: it is only touched. -/
def touched (s : State) (key : String) (entry : AdapterEntry) (i : Nat) (op : Operation) : State :=
  let s := { s with touch := s.touch + 1 }
  settle s key { entry with regions := entry.regions.map fun r =>
    if r.target = op.target then { r with lastUsed := s.touch } else r } i op.req true

/-- The regions that stay. -/
def without (regions gone : List TargetRegion) : List TargetRegion :=
  regions.filter fun r => !gone.any fun v => v.target = r.target

/-- The messages that take a region's place. -/
def registration (gone : List TargetRegion) (requestId : Nat) (target : String)
    (region : Region) : List Msg :=
  gone.map (fun v => Msg.unregister v.target v.region.offset) ++
    [Msg.register requestId target region]

/-- Take the displaced regions away and post the registration. -/
def register (s : State) (key : String) (entry : AdapterEntry) (i : Nat) (op : Operation)
    (gone : List TargetRegion) : State :=
  let next : TargetRegion := { target := op.target, region := op.region, lastUsed := s.touch + 1 }
  let requestId := s.registrationSequence + 1
  let s := { s with touch := s.touch + 1, registrationSequence := requestId }
  (s.setEntry key { entry with
    regions := without entry.regions gone
    operations := setStatus entry.operations i (.awaiting requestId next) }).post entry.worker
      (registration gone requestId op.target op.region)

/-- The body of `ensureAdapterRegion`, up to its `await`. -/
def beginOperation (max : Nat) (s : State) (key : String) (entry : AdapterEntry) (i : Nat)
    (op : Operation) (first second : Region → Lanes) : State :=
  if (current entry.regions op.target).map (·.region) = some op.region then
    touched s key entry i op
  else
    match displaced max entry.regions op.target op.region first with
    | none => settle s key entry i op.req false
    | some gone =>
      if gone.any fun r => !regionIsIdle r.region (second r.region) then
        settle s key entry i op.req false
      else register s key entry i op gone

/-- `entry.regions.set(target, next)`: in place when the target is there. -/
def setRegion (regions : List TargetRegion) (next : TargetRegion) : List TargetRegion :=
  if regions.any (·.target = next.target) then
    regions.map fun r => if r.target = next.target then next else r
  else regions ++ [next]

/-- A registration that was acknowledged in time. -/
def registered (s : State) (key : String) (entry : AdapterEntry) (i : Nat) (op : Operation)
    (next : TargetRegion) : State :=
  settle s key { entry with regions := setRegion entry.regions next } i op.req true

/-! ## One step -/

/-- The operation that waits for `requestId`. -/
def awaited (ops : List Operation) (requestId : Nat) : Option Nat :=
  ops.findIdx? fun op => match op.status with
    | .awaiting id _ => id = requestId
    | _ => false

/-- The reply to a registration, in time or not. -/
def registrationReply (s : State) (key : String) (entry : AdapterEntry) (requestId : Nat)
    (ok : Bool) : State :=
  let s := s.receive entry.worker (if ok then .targetReady requestId else .targetError requestId)
  match awaited entry.operations requestId with
  | none => s
  | some i =>
    match entry.operations[i]? with
    | some op =>
      match op.status with
      | .awaiting _ next =>
        if ok then registered s key entry i op next else settle s key entry i op.req false
      | _ => s
    | none => s

/-- What an event does, or `none` when it cannot happen. -/
def step (opts : Options) (s : State) : Event → Option State
  | .ensure location region => some (ensure opts s location region)
  | .spawned key ok =>
    match s.pendingAdapters key with
    | some boot =>
      if boot.worker = none then
        if ok then some (spawned s key boot)
        else if boot.app then none else some (bootFailed s key boot)
      else none
    | none => none
  | .bootReply key ok =>
    match s.pendingAdapters key with
    | some boot => boot.worker.map fun w =>
        if ok then bootReady s key boot w else bootError s key boot w
    | none => none
  | .begin key i first second =>
    match s.adapters key with
    | some entry =>
      match entry.operations[i]? with
      | some op =>
        if op.status = .waiting ∧ predecessorSettled entry.operations i then
          some (beginOperation opts.maxTargetsPerAdapter s key entry i op first second)
        else none
      | none => none
    | none => none
  | .registrationReply key requestId ok =>
    match s.adapters key with
    | some entry => some (registrationReply s key entry requestId ok)
    | none => none
  | .timeout key i =>
    match s.adapters key with
    | some entry =>
      match entry.operations[i]? with
      | some op =>
        match op.status with
        | .awaiting _ _ => some (settle s key entry i op.req false)
        | _ => none
      | none => none
    | none => none
  | .legacySpawned url ok =>
    match s.pending url with
    | some boot =>
      if boot.worker = none then
        if ok then
          let w := s.nextWorker
          some (({ s with
            nextWorker := w + 1
            listening := Function.update s.listening w (some url) }.setPending url
              (some { boot with worker := some w })).post w [.init none boot.region])
        else some ((s.setPending url none).signalAll boot.reqs false)
      else none
    | none => none
  | .legacyReply w ok =>
    match s.listening w with
    | some url =>
      if ok then
        let s := s.receive w .ready
        let s := { s with workers := Function.update s.workers url (some w) }
        match s.pending url with
        | some boot =>
          if boot.worker = some w then
            some ((s.setPending url none).signalAll boot.reqs true)
          else some s
        | none => some s
      else
        let s := s.receive w .error
        let s := { s with
          listening := Function.update s.listening w none
          terminated := w :: s.terminated }
        match s.pending url with
        | some boot =>
          if boot.worker = some w then
            some ((s.setPending url none).signalAll boot.reqs false)
          else some s
        | none => some s
    | none => none

end Haybarn.Bridge
