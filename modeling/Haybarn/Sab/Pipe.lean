import Haybarn.Lib.Run
import Haybarn.Sab.Calls

/-!
# One direction of one claim

A producer that calls `ringWrite` any number of times and may then close the
direction, a consumer that calls `ringRead` any number of times, and the other
parties of the slot. Every event is one atomic step of one of them, so a run is
an interleaving: the start of a call (`write`, `close`, `read`), the next step
of the call in progress (`produce`, `consume`), whose last one hands the result
back, or a store by somebody else (`poke`, `pokeByte`), which may hit anything
but the two position lanes and the ring of this direction.

The state keeps the histories the properties are about: `writes` has, for every
`ringWrite` that returned, the part of its chunk the result says was written;
`reads` has, for every `ringRead` that returned, the bytes it delivered.
-/

namespace Haybarn.Sab

open Haybarn.Lib

/-- Who uses the direction, and how: the arguments the two ends pass to the ring
functions on every call. `stub` says that the reader is the loop of
`js-stubs.js`. -/
structure Pipe where
  dir : Dir
  ringCap : Nat
  writerClaim : Option Int32
  readerClaim : Option Int32
  claimSafeClose : Bool
  stub : Bool
  closer : Closer
  deriving DecidableEq, Repr

namespace Pipe

/-- Client to worker: `stubWrite`, `stubWriteEos` and `workerRead`. -/
def clientToWorker (ringCap : Nat) (claim : Int32) : Pipe :=
  { dir := .c2w, ringCap, writerClaim := none, readerClaim := some claim,
    claimSafeClose := false, stub := false, closer := .stubWriteEos }

/-- Worker to client: `workerWrite`, `workerCloseW2c` and `stubRead`, or the read
of `js-stubs.js`. -/
def workerToClient (ringCap : Nat) (claim : Int32) (stub : Bool) : Pipe :=
  { dir := .w2c, ringCap, writerClaim := some claim, readerClaim := none,
    claimSafeClose := true, stub, closer := .workerCloseW2c claim }

inductive Producer
  | idle
  | writing (chunk : List UInt8) (pc : WritePC)
  | closing (pc : ClosePC)
  | closed
  deriving DecidableEq, Repr

inductive Consumer
  | idle
  | reading (n : Nat) (pc : ReadPC UInt8)
  deriving DecidableEq, Repr

structure State where
  slot : Slot UInt8
  producer : Producer
  consumer : Consumer
  writes : List (List UInt8)
  reads : List (List UInt8)

inductive Event
  | write (chunk : List UInt8)
  | close
  | produce
  | read (n : Nat)
  | consume
  | poke (l : Lane) (v : Int32)
  | pokeByte (d : Dir) (i : Nat) (b : UInt8)
  deriving DecidableEq, Repr

variable (p : Pipe)

def writeCall (chunk : List UInt8) : WriteCall UInt8 :=
  { dir := p.dir, ringCap := p.ringCap, src := fun i => chunk.getD i 0, n := chunk.length,
    servedClaim := p.writerClaim }

def readCall (n : Nat) : ReadCall :=
  { dir := p.dir, ringCap := p.ringCap, n, claimSafeClose := p.claimSafeClose,
    servedClaim := p.readerClaim }

/-- The reader's next step. -/
def readNext (n : Nat) : ReadPC UInt8 → Option (Instr UInt8 (ReadPC UInt8)) :=
  if p.stub then (p.readCall n).stubNext else (p.readCall n).next

/-- The reader's first program counter. -/
def readStart (n : Nat) : ReadPC UInt8 := if p.stub then .loadWrite else (p.readCall n).loop

/-- The producer's next step. -/
def produce (s : State) : Option State :=
  match s.producer with
  | .writing chunk pc =>
    match (p.writeCall chunk).next pc, pc with
    | some ins, _ =>
      some { s with slot := (ins.exec s.slot).1, producer := .writing chunk (ins.exec s.slot).2 }
    | none, .done result =>
      some { s with producer := .idle, writes := s.writes ++ [chunk.take result] }
    | none, _ => none
  | .closing pc =>
    match p.closer.next pc, pc with
    | some ins, _ =>
      some { s with slot := (ins.exec s.slot).1, producer := .closing (ins.exec s.slot).2 }
    | none, .done _ => some { s with producer := .closed }
    | none, _ => none
  | .idle => none
  | .closed => none

/-- The consumer's next step. -/
def consume (s : State) : Option State :=
  match s.consumer with
  | .reading n pc =>
    match p.readNext n pc, pc with
    | some ins, _ =>
      some { s with slot := (ins.exec s.slot).1, consumer := .reading n (ins.exec s.slot).2 }
    | none, .done _ dst => some { s with consumer := .idle, reads := s.reads ++ [dst] }
    | none, _ => none
  | .idle => none

/-- One event. -/
def step (s : State) : Event → Option State
  | .write chunk =>
    if s.producer = .idle then
      some { s with producer := .writing chunk ((p.writeCall chunk).loop 0) }
    else none
  | .close => if s.producer = .idle then some { s with producer := .closing p.closer.start } else none
  | .produce => p.produce s
  | .read n =>
    if s.consumer = .idle then some { s with consumer := .reading n (p.readStart n) } else none
  | .consume => p.consume s
  | .poke l v =>
    if l = p.dir.writeLane ∨ l = p.dir.readLane then none
    else some { s with slot := s.slot.setLane l v }
  | .pokeByte d i b =>
    if d = p.dir then none else some { s with slot := s.slot.setByte d i b }

/-- A freshly published claim: both positions are zero and nobody has called yet.
The rings and the other lanes hold anything. -/
structure Init (s : State) : Prop where
  write : s.slot.lane p.dir.writeLane = 0
  read : s.slot.lane p.dir.readLane = 0
  producer : s.producer = .idle
  consumer : s.consumer = .idle
  writes : s.writes = []
  reads : s.reads = []

/-- Claim `claim` just published, with nothing else in the slot. -/
def fresh (claim : Int32) : State :=
  { slot := { lane := fun l => if l = .state then claim else 0, ring := fun _ _ => 0 }
    producer := .idle, consumer := .idle, writes := [], reads := [] }

variable {p}

theorem init_fresh (p : Pipe) (claim : Int32) : p.Init (fresh claim) := by
  obtain ⟨dir, ringCap, writerClaim, readerClaim, claimSafeClose, stub, closer⟩ := p
  cases dir <;> exact ⟨rfl, rfl, rfl, rfl, rfl, rfl⟩

/-! ## What was written and what was returned -/

/-- The part of the chunk in hand that has been written. -/
def Producer.written : Producer → List UInt8
  | .writing chunk pc => chunk.take pc.off
  | _ => []

/-- The bytes consumed by the call in progress and not yet returned. -/
def Consumer.consumed : Consumer → List UInt8
  | .reading _ pc => pc.consumed
  | .idle => []

/-- All the bytes the writer has put in. -/
def State.sent (s : State) : List UInt8 := s.writes.flatten ++ s.producer.written

/-- All the bytes returned to the reader. -/
def State.returned (s : State) : List UInt8 := s.reads.flatten

/-- All the bytes taken out of the ring, returned or about to be. -/
def State.received (s : State) : List UInt8 := s.returned ++ s.consumer.consumed

/-- The bytes a step sends. -/
def State.sending (p : Pipe) (s : State) : Event → List UInt8
  | .produce =>
    match s.producer with
    | .writing chunk pc => (p.writeCall chunk).published pc
    | _ => []
  | _ => []

/-- The condition that the position lanes do not overflow: fewer than 2^31 bytes
have been sent with this step. -/
def Fits (p : Pipe) (s : State) (e : Event) : Prop :=
  s.sent.length + (s.sending p e).length < 2 ^ 31

instance (s : State) (e : Event) : Decidable (p.Fits s e) :=
  inferInstanceAs (Decidable (_ < _))

end Pipe

end Haybarn.Sab
