import Haybarn.Http.Mailbox
import Haybarn.Lib.Run

/-!
# Who has a slot

The invariant of the mailbox. A slot is held by the call that `holder` names and by no
other; where that call is in `FetchViaHelper`, where the helper is in `serve` and the state
lane agree (`Agrees`, `Fits`); a slot that nobody holds is free, or has been abandoned with
its inputs copied. While the helper is at work in a slot, the slot's pointers are those of
one call, its client, which holds the slot or has abandoned it.

The condition it needs is `Tidy`: the compare-exchanges of a caller that has abandoned a
slot do not succeed on a slot that somebody else holds by then.
-/

namespace Haybarn.Http

variable (web : Web)

/-- The compare-exchange of a caller that has abandoned the slot does not succeed on the slot of
another call. -/
def Harmless (σ : Slot) : CallPC → Prop
  | .sweep (value :: _) => σ.state = value → σ.holder = none
  | _ => True

/-- Every step of a caller is harmless. -/
def Tidy (st : Mailbox) : Event → Prop
  | .call c _ => Harmless (st.slots (st.calls c).slot) (st.calls c).pc
  | _ => True

instance (σ : Slot) : ∀ pc, Decidable (Harmless σ pc)
  | .sweep (value :: _) => inferInstanceAs (Decidable (σ.state = value → σ.holder = none))
  | .sweep [] | .unborn | .checkReady | .claim | .fill _ | .poll | .readSize | .storeBuffer
  | .provide | .collect | .release | .leave _ | .wait | .recheck | .takeBack | .unready | .decide
  | .raiseAbort | .withdraw | .checkCopied | .abandon | .returned _ => .isTrue trivial

instance (st : Mailbox) : ∀ ev, Decidable (Tidy st ev)
  | .call _ _ => inferInstanceAs (Decidable (Harmless ..))
  | .ready | .start .. | .scan _ | .serve .. | .watch _ | .freeResult _ => .isTrue trivial

/-- The call has abandoned its slot. -/
def Call.gone (x : Call) : Prop :=
  match x.pc with
  | .sweep _ | .returned .cancelled | .returned .timedOut => True
  | _ => False

/-- The helper is at work in the slot. -/
def ServePC.active : ServePC → Bool
  | .idle | .claim | .checkAbandoned _ | .freeSlot _ => false
  | _ => true

/-! ## The helper and the state lane -/

/-- No serve is under way in a slot in these states. -/
def State.resting : State → Prop
  | .inFlight | .needsBuffer | .bufferProvided => False
  | _ => True

/-- The request has not been taken by the helper yet. -/
def State.early : State → Prop
  | .claimed | .request => True
  | _ => False

/-- The state lane and `COPIED`, by where the helper is. -/
def Fits (σ : Slot) : ServePC → Prop
  | .idle | .claim => σ.state.resting
  | .checkAbandoned state | .freeSlot state => σ.state.resting ∧ state ∈ finished
  | .point .. | .copy .. | .pointHeaders _ | .copyHeader .. | .unreadable | .storeCopied _ =>
    σ.state = .inFlight ∧ σ.copied = false
  | .fetching _ | .storeSize _ | .announce _ => σ.state = .inFlight ∧ σ.copied = true
  | .awaitBuffer _ => (σ.state = .needsBuffer ∨ σ.state = .bufferProvided) ∧ σ.copied = true
  | .readBuffer _ | .write .. => σ.state = .bufferProvided ∧ σ.copied = true
  | .finish state =>
    (σ.state = .inFlight ∨ σ.state = .bufferProvided) ∧ σ.copied = true ∧ state ∈ finished

/-! ## The holder and its slot -/

/-- The lanes as the holder has filled them. -/
structure Inputs (c : CallId) (r : Request) (σ : Slot) : Prop where
  url : σ.url = some c
  urlLen : σ.urlLen = r.url.length
  method : σ.method = some c
  methodLen : σ.methodLen = r.method.length
  headers : σ.headers = some c
  headerCount : σ.headerCount = r.headers.length
  body : σ.body = some c
  bodyLen : σ.bodyLen = r.body.length
  kept : σ.abandoned = false
  fresh : σ.state = .request → σ.copied = false

/-- The first `k` stores have been made. -/
def Filled (c : CallId) (r : Request) (k : Nat) (σ : Slot) : Prop :=
  ∃ σ₀, σ = ((fills c r).take k).foldl (fun σ store => store σ) σ₀

/-- The state lane, by where the holder is. -/
def Agrees (c : CallId) (x : Call) (σ : Slot) : Prop :=
  match x.pc with
  | .fill k => σ.state = .claimed ∧ Filled c x.request k σ
  | .readSize | .storeBuffer => σ.state = .needsBuffer ∧ Inputs c x.request σ
  | .provide => σ.state = .needsBuffer ∧ Inputs c x.request σ ∧ σ.buffer = x.buffer
  | .collect => σ.state = .done ∧ Inputs c x.request σ
  | .release => (σ.state = .failed ∨ σ.state = .cancelled) ∧ Inputs c x.request σ
  | .leave outcome =>
    (σ.state = .failed ∨ σ.state = .cancelled) ∧ outcome ≠ .ok ∧ Inputs c x.request σ
  | .abandon =>
    σ.state ≠ .free ∧ σ.state ≠ .claimed ∧ σ.state ≠ .request ∧ σ.copied = true ∧
      Inputs c x.request σ
  | .checkCopied =>
    σ.state ≠ .free ∧ σ.state ≠ .claimed ∧ σ.state ≠ .request ∧ Inputs c x.request σ
  | _ => σ.state ≠ .free ∧ σ.state ≠ .claimed ∧ Inputs c x.request σ

/-! ## The client of a serve -/

/-- What has been fetched for a request is known. -/
def Produced (fetches : List Fetch) (c : CallId) (r : Request) (bytes : List UInt8) : Prop :=
  ∃ response, bytes = response.wire web ∧
    { caller := some c, asked := outgoing web r, response } ∈ fetches

/-- What the helper knows of its client's request so far. -/
def Knows (fetches : List Fetch) (c : CallId) (r : Request) : ServePC → Prop
  | .point .url a => a = {}
  | .copy .url ptr len a => ptr = some c ∧ len = r.url.length ∧ a = {}
  | .point .method a => a = { url := web.decode r.url }
  | .copy .method ptr len a =>
    ptr = some c ∧ len = r.method.length ∧ a = { url := web.decode r.url }
  | .pointHeaders a => a = { url := web.decode r.url, method := web.decode r.method }
  | .copyHeader ptr count i a =>
    ptr = some c ∧ count = r.headers.length ∧ i ≤ count ∧
      a = { url := web.decode r.url, method := web.decode r.method
            headers := outgoingHeaders web r i }
  | .point .body a =>
    a = { url := web.decode r.url, method := web.decode r.method
          headers := outgoingHeaders web r r.headers.length }
  | .copy .body ptr len a =>
    ptr = some c ∧ len = r.body.length ∧ 0 < len ∧
      a = { url := web.decode r.url, method := web.decode r.method
            headers := outgoingHeaders web r r.headers.length }
  | .storeCopied a | .fetching a => a = outgoing web r
  | .storeSize bytes | .announce bytes | .awaitBuffer bytes | .readBuffer bytes =>
    Produced web fetches c r bytes
  | .write _ bytes => Produced web fetches c r bytes
  | _ => True

/-- The call has the buffer with the response to its request. -/
def Answered (st : Mailbox) (c : CallId) : Prop :=
  ∃ b bytes, (st.calls c).buffer = some b ∧ (st.buffers b).contents = some bytes ∧
    Produced web st.fetches c (st.calls c).request bytes

/-- The client of the serve of a slot. -/
structure Client (st : Mailbox) (s : Nat) (c : CallId) : Prop where
  url : (st.slots s).url = some c
  slot : (st.calls c).slot = s
  here : (st.slots s).holder = some c ∨ (st.calls c).gone
  knows : Knows web st.fetches c (st.calls c).request (st.serves s).pc
  lent : (st.slots s).state = .bufferProvided → (st.slots s).buffer = (st.calls c).buffer
  writes : ∀ b bytes, (st.serves s).pc = .write b bytes → (st.calls c).buffer = some b
  written : (st.serves s).pc = .finish .done → Answered web st c

/-! ## The invariant -/

/-- What holds of a slot. -/
structure SlotInv (st : Mailbox) (s : Nat) : Prop where
  fits : Fits (st.slots s) (st.serves s).pc
  held : ∀ c, (st.slots s).holder = some c →
    (st.calls c).pc.holding = true ∧ (st.calls c).slot = s ∧ Agrees c (st.calls c) (st.slots s)
  vacant : (st.slots s).holder = none →
    (st.slots s).state ≠ .claimed ∧ (st.slots s).state ≠ .request ∧
      ((st.slots s).state ≠ .free → (st.slots s).copied = true ∧ (st.slots s).abandoned = true)
  client : (st.serves s).pc.active = true → ∃ c, Client web st s c
  freeing : ∀ state, (st.serves s).pc = .freeSlot state → (st.slots s).holder ≠ none →
    (st.slots s).state.early
  answered : ∀ c, (st.slots s).holder = some c → (st.slots s).state = .done → Answered web st c

/-- What holds of a call. -/
structure CallInv (st : Mailbox) (c : CallId) : Prop where
  holds : (st.calls c).pc.holding = true → (st.slots (st.calls c).slot).holder = some c
  sweeps : ∀ rest, (st.calls c).pc = .sweep rest → ∀ value ∈ rest, value ∈ finished
  allocated : ∀ b, (st.calls c).buffer = some b → b < st.fresh
  own : ∀ b d, (st.calls c).buffer = some b → (st.calls d).buffer = some b → d = c
  freed : ∀ b, (st.calls c).buffer = some b → (st.buffers b).freed = true →
    (st.calls c).pc = .leave .failed ∨ (st.calls c).pc = .returned .failed ∨
      (st.calls c).pc = .returned .ok
  ok : (st.calls c).pc = .returned .ok → Answered web st c

structure Inv (st : Mailbox) : Prop where
  slot : ∀ s, SlotInv web st s
  call : ∀ c, CallInv web st c

end Haybarn.Http
