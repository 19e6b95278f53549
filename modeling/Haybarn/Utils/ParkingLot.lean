import Haybarn.Lib.Run
import Haybarn.Lib.Parties

/-!
# The parking lot (`parking_lot.cc`)

Threads wait for something at an address. A lot has a bucket for every address at which somebody
waits, with the number of the waiting threads and a condition variable; a bucket that nobody waits
at any more is put aside, and used again for some other address. All of this is done under the
mutex of the lot. A thread that unparks the others looks the bucket up under the mutex, too, but it
notifies the bucket after it has let the mutex go, when the bucket may be some other address's.

`parking_lot` says that this works: an address has one bucket at most, which counts the threads in
its wait; a thread waits at a bucket of its own address; and a thread that waits when its address is
looked up to unpark everybody is at that bucket until it leaves, so that it is notified.

Mirroring notes:
- What is done in one go under the mutex is one step: `Park` until it sleeps or returns, a thread
  that was asleep until it sleeps again or returns, and the look-up of `UnparkThreads`.
- What the check says each time is part of the event. It may be anything.
- The lot of an address is a parameter (`getParkingLot`), as is the number of lots.
- A bucket is known by the number with which it was made; the lists of a lot are lists of these.
- A condition variable wakes sleepers when it is notified, at the time that was given, or for no
  reason. Who is awake and does not have the mutex yet is still in the wait.
- The number of waiting threads does not overflow: every thread has a stack in a memory of 2^32
  bytes.
-/

namespace Haybarn.Utils.ParkingLot

open Lib (Always Run execute tally_move)

/-! ## Buckets -/

variable {A : Type}

structure Bucket (A : Type) where
  address : Option A := none
  waiting_threads : Nat := 0

structure BucketList (A : Type) where
  /-- The active buckets. -/
  buckets : List Nat := []
  inactive : List Nat := []
  bucket : Nat → Bucket A := fun _ => {}
  /-- How many buckets were made. -/
  made : Nat := 0

namespace BucketList

variable [DecidableEq A] (lot : BucketList A)

/-- The loops of `Park` and `UnparkThreads`. -/
def find (addr : A) : Option Nat :=
  lot.buckets.find? fun b => decide ((lot.bucket b).address = some addr)

/-- Another bucket becomes an active one. -/
def activate (n : Nat) (bucket : Bucket A) : BucketList A :=
  { lot with buckets := n :: lot.buckets, bucket := Function.update lot.bucket n bucket }

/-- The bucket that `Park` uses. -/
def getBucket (addr : A) : Nat × BucketList A :=
  match lot.find addr with
  | some b => (b, lot)
  | none =>
    match lot.inactive with
    | n :: rest =>
      (n, ({ lot with inactive := rest }).activate n { lot.bucket n with address := some addr })
    | [] =>
      (lot.made, ({ lot with made := lot.made + 1 }).activate lot.made { address := some addr })

def setWaiting (b n : Nat) : BucketList A :=
  { lot with bucket := Function.update lot.bucket b { lot.bucket b with waiting_threads := n } }

/-- The end of `Park`: the last one who waits at a bucket puts it aside. -/
def release (b : Nat) : BucketList A :=
  let n := (lot.bucket b).waiting_threads - 1
  let lot := lot.setWaiting b n
  if n = 0 then { lot with buckets := lot.buckets.erase b, inactive := b :: lot.inactive } else lot

end BucketList

/-! ## Threads -/

variable {K P : Type}

inductive Place (A : Type)
  | idle
  /-- In `cv.wait` or `cv.wait_until` (`timed`) of a bucket, asleep. -/
  | asleep (addr : A) (b : Nat) (timed : Bool)
  /-- The same, but it has been woken up, possibly because of the time. -/
  | awake (addr : A) (b : Nat) (timed timeout : Bool)
  /-- In `UnparkThreads`, before `notify_all` or `notify_one`. -/
  | notify (addr : A) (b : Nat) (all : Bool)
  deriving DecidableEq

namespace Place

/-- The address and the bucket of a thread in a wait. -/
def waits : Place A → Option (A × Nat)
  | .asleep addr b _ | .awake addr b _ _ => some (addr, b)
  | _ => none

def wakeUp (timeout : Bool) : Place A → Place A
  | .asleep addr b timed => .awake addr b timed timeout
  | l => l

/-- Asleep at a bucket of a lot. -/
def sleepsAt [DecidableEq K] (getParkingLot : A → K) (k : K) (b : Nat) : Place A → Bool
  | .asleep addr b' _ => decide (getParkingLot addr = k) && decide (b' = b)
  | _ => false

end Place

structure State (A K P : Type) where
  lots : K → BucketList A
  threads : P → Place A

def initial : State A K P := ⟨fun _ => {}, fun _ => .idle⟩

inductive Event (A P : Type)
  /-- `Park`, and what the first two checks say. -/
  | park (p : P) (addr : A) (timed check again : Bool)
  /-- A sleeper wakes up, because of the time or for no reason. -/
  | wake (p : P) (timeout : Bool)
  /-- A thread that has been woken up has the mutex again. -/
  | resume (p : P) (check : Bool)
  /-- `UnparkThreads`, under the mutex. -/
  | unpark (p : P) (addr : A) (all : Bool)
  /-- The notification, and whom it wakes up if it is for one. -/
  | notify (p : P) (one : Option P)

variable [DecidableEq A] [DecidableEq K] [DecidableEq P] (getParkingLot : A → K)

/-- The first part of `Park`: a bucket, and one more who waits at it. -/
def State.enter (s : State A K P) (p : P) (addr : A) (timed : Bool) : State A K P :=
  let (b, lot) := (s.lots (getParkingLot addr)).getBucket addr
  { lots := Function.update s.lots (getParkingLot addr)
      (lot.setWaiting b ((lot.bucket b).waiting_threads + 1))
    threads := Function.update s.threads p (.asleep addr b timed) }

/-- The last part of `Park`. -/
def State.leave (s : State A K P) (p : P) : State A K P :=
  match (s.threads p).waits with
  | some (addr, b) =>
    { lots := Function.update s.lots (getParkingLot addr)
        ((s.lots (getParkingLot addr)).release b)
      threads := Function.update s.threads p .idle }
  | none => s

def State.goTo (s : State A K P) (p : P) (l : Place A) : State A K P :=
  { s with threads := Function.update s.threads p l }

variable [Fintype P]

def step (s : State A K P) : Event A P → Option (State A K P)
  | .park p addr timed check again =>
    match s.threads p with
    | .idle =>
      if check then some s
      else if again then some ((s.enter getParkingLot p addr timed).leave getParkingLot p)
      else some (s.enter getParkingLot p addr timed)
    | _ => none
  | .wake p timeout =>
    match s.threads p with
    | .asleep addr b timed =>
      if timeout && !timed then none else some (s.goTo p (.awake addr b timed timeout))
    | _ => none
  | .resume p check =>
    match s.threads p with
    | .awake addr b timed timeout =>
      if timeout || check then some (s.leave getParkingLot p)
      else some (s.goTo p (.asleep addr b timed))
    | _ => none
  | .unpark p addr all =>
    match s.threads p with
    | .idle =>
      match (s.lots (getParkingLot addr)).find addr with
      | some b => some (s.goTo p (.notify addr b all))
      | none => some s
    | _ => none
  | .notify p one =>
    match s.threads p with
    | .notify addr b all =>
      let sleepers := fun q => (s.threads q).sleepsAt getParkingLot (getParkingLot addr) b
      if all then
        some { s with
          threads := fun q =>
            if q = p then .idle
            else if sleepers q then (s.threads q).wakeUp false
            else s.threads q }
      else
        match one with
        | some q =>
          if sleepers q then some ((s.goTo p .idle).goTo q ((s.threads q).wakeUp false)) else none
        | none => if ∀ q, sleepers q = false then some (s.goTo p .idle) else none
    | _ => none

/-! ## The lists of a lot -/

/-- The lists of a lot are in order, and every active bucket has an address of its own. -/
structure LotOk (k : K) (lot : BucketList A) : Prop where
  nodup : (lot.buckets ++ lot.inactive).Nodup
  made : ∀ b ∈ lot.buckets ++ lot.inactive, b < lot.made
  bound : ∀ b ∈ lot.buckets, ∃ a, (lot.bucket b).address = some a ∧ getParkingLot a = k
  distinct : ∀ b ∈ lot.buckets, ∀ c ∈ lot.buckets,
    (lot.bucket b).address = (lot.bucket c).address → b = c

section Lot

variable {getParkingLot} {k : K} {lot : BucketList A} {addr : A} {b n : Nat}

omit [DecidableEq K] in
theorem find_some (h : lot.find addr = some b) :
    b ∈ lot.buckets ∧ (lot.bucket b).address = some addr :=
  ⟨List.mem_of_find?_eq_some h, of_decide_eq_true (List.find?_some h :)⟩

omit [DecidableEq K] in
theorem find_none (h : lot.find addr = none) (hb : b ∈ lot.buckets) :
    (lot.bucket b).address ≠ some addr :=
  of_decide_eq_false (Bool.eq_false_iff.mpr (List.find?_eq_none.mp h b hb))

omit [DecidableEq K] in
/-- The bucket of an address is found. -/
theorem LotOk.find (h : LotOk getParkingLot k lot) (hb : b ∈ lot.buckets)
    (haddr : (lot.bucket b).address = some addr) : lot.find addr = some b := by
  cases hfind : lot.find addr with
  | none => exact absurd haddr (find_none hfind hb)
  | some c =>
    obtain ⟨hc, hcaddr⟩ := find_some hfind
    rw [h.distinct c hc b hb (hcaddr.trans haddr.symm)]

omit [DecidableEq K] [DecidableEq A] in
theorem setWaiting_address (c : Nat) :
    ((lot.setWaiting b n).bucket c).address = (lot.bucket c).address := by
  rw [BucketList.setWaiting]
  dsimp only
  by_cases hc : c = b
  · subst hc
    rw [Function.update_self]
  · rw [Function.update_of_ne hc]

omit [DecidableEq K] [DecidableEq A] in
theorem LotOk.setWaiting (h : LotOk getParkingLot k lot) :
    LotOk getParkingLot k (lot.setWaiting b n) where
  nodup := h.nodup
  made := h.made
  bound c hc := by
    rw [setWaiting_address]
    exact h.bound c hc
  distinct c hc d hd := by
    rw [setWaiting_address, setWaiting_address]
    exact h.distinct c hc d hd

omit [DecidableEq K] [DecidableEq A] in
theorem LotOk.putAside (h : LotOk getParkingLot k lot) (hb : b ∈ lot.buckets) :
    LotOk getParkingLot k { lot with
      buckets := lot.buckets.erase b, inactive := b :: lot.inactive } where
  nodup := by
    have hperm : (lot.buckets.erase b ++ b :: lot.inactive).Perm (lot.buckets ++ lot.inactive) :=
      List.perm_middle.trans (((List.perm_cons_erase hb).symm).append_right lot.inactive)
    exact hperm.nodup_iff.mpr h.nodup
  made c hc := by
    refine h.made c ?_
    rcases List.mem_append.mp hc with hc | hc
    · exact List.mem_append_left _ (List.mem_of_mem_erase hc)
    · rcases List.mem_cons.mp hc with rfl | hc
      · exact List.mem_append_left _ hb
      · exact List.mem_append_right _ hc
  bound c hc := h.bound c (List.mem_of_mem_erase hc)
  distinct c hc d hd := h.distinct c (List.mem_of_mem_erase hc) d (List.mem_of_mem_erase hd)

omit [DecidableEq K] [DecidableEq A] in
theorem release_bucket (lot : BucketList A) (b : Nat) : (lot.release b).bucket =
    (lot.setWaiting b ((lot.bucket b).waiting_threads - 1)).bucket := by
  rw [BucketList.release]
  split
  next => rfl
  next => rfl

omit [DecidableEq K] [DecidableEq A] in
theorem LotOk.release (h : LotOk getParkingLot k lot) (hb : b ∈ lot.buckets) :
    LotOk getParkingLot k (lot.release b) := by
  rw [BucketList.release]
  split
  next => exact h.setWaiting.putAside hb
  next => exact h.setWaiting

omit [DecidableEq A] in
/-- Only the bucket itself is put aside, and only by the last one. -/
theorem release_keeps {c : Nat} (hc : c ∈ lot.buckets)
    (hmore : c = b → 1 < (lot.bucket b).waiting_threads) : c ∈ (lot.release b).buckets := by
  rw [BucketList.release]
  split
  next hzero =>
    refine (List.mem_erase_of_ne fun heq => ?_).mpr hc
    have hmore := hmore heq
    omega
  next => exact hc

omit [DecidableEq K] in
/-- A bucket that is in neither list becomes the one of an address without a bucket. -/
theorem LotOk.activate (h : LotOk getParkingLot k lot) {bucket : Bucket A}
    (hnew : n ∉ lot.buckets ++ lot.inactive) (hmade : n < lot.made)
    (haddr : bucket.address = some addr) (hk : getParkingLot addr = k)
    (hnone : lot.find addr = none) : LotOk getParkingLot k (lot.activate n bucket) := by
  -- the other active buckets are as they were
  have hother : ∀ c ∈ lot.buckets,
      (Function.update lot.bucket n bucket c) = lot.bucket c := by
    intro c hc
    refine Function.update_of_ne ?_ _ _
    intro heq
    exact hnew (heq ▸ List.mem_append_left _ hc)
  refine ⟨List.nodup_cons.mpr ⟨hnew, h.nodup⟩, ?_, ?_, ?_⟩
  · intro c hc
    rcases List.mem_cons.mp hc with rfl | hc
    · exact hmade
    · exact h.made c hc
  · intro c hc
    show ∃ a, (Function.update lot.bucket n bucket c).address = some a ∧ _
    rcases List.mem_cons.mp hc with rfl | hc
    · rw [Function.update_self]
      exact ⟨addr, haddr, hk⟩
    · rw [hother c hc]
      exact h.bound c hc
  · intro c hc d hd
    show (Function.update lot.bucket n bucket c).address =
      (Function.update lot.bucket n bucket d).address → c = d
    rcases List.mem_cons.mp hc with rfl | hcold
    · rcases List.mem_cons.mp hd with rfl | hdold
      · exact fun _ => rfl
      · rw [Function.update_self, hother d hdold, haddr]
        exact fun heq => absurd heq.symm (find_none hnone hdold)
    · rcases List.mem_cons.mp hd with rfl | hdold
      · rw [Function.update_self, hother c hcold, haddr]
        exact fun heq => absurd heq (find_none hnone hcold)
      · rw [hother c hcold, hother d hdold]
        exact h.distinct c hcold d hdold

/-- What `Park` does to a lot to get a bucket: it has one of the address then, and the others are
as they were. -/
structure Got (getParkingLot : A → K) (k : K) (addr : A) (lot : BucketList A)
    (r : Nat × BucketList A) : Prop where
  ok : LotOk getParkingLot k r.2
  active : r.1 ∈ r.2.buckets
  address : (r.2.bucket r.1).address = some addr
  waiting : ∀ c, (r.2.bucket c).waiting_threads = (lot.bucket c).waiting_threads
  keeps : ∀ c ∈ lot.buckets, c ∈ r.2.buckets ∧ (r.2.bucket c).address = (lot.bucket c).address

omit [DecidableEq K] in
theorem got_activate (h : LotOk getParkingLot k lot) (bucket : Bucket A)
    (hnew : n ∉ lot.buckets ++ lot.inactive) (hmade : n < lot.made)
    (haddr : bucket.address = some addr)
    (hwaiting : bucket.waiting_threads = (lot.bucket n).waiting_threads)
    (hk : getParkingLot addr = k) (hnone : lot.find addr = none) :
    Got getParkingLot k addr lot (n, lot.activate n bucket) where
  ok := h.activate hnew hmade haddr hk hnone
  active := List.mem_cons_self
  address := by
    show (Function.update lot.bucket n bucket n).address = some addr
    rw [Function.update_self, haddr]
  waiting c := by
    show (Function.update lot.bucket n bucket c).waiting_threads = _
    by_cases hc : c = n
    · subst hc
      rw [Function.update_self, hwaiting]
    · rw [Function.update_of_ne hc]
  keeps c hc := by
    refine ⟨List.mem_cons_of_mem n hc, ?_⟩
    show (Function.update lot.bucket n bucket c).address = _
    rw [Function.update_of_ne]
    intro heq
    exact hnew (heq ▸ List.mem_append_left _ hc)

omit [DecidableEq K] in
/-- A new bucket has no waiting threads, as one that was never made has none. -/
theorem getBucket_got (h : LotOk getParkingLot k lot) (hk : getParkingLot addr = k)
    (hnever : (lot.bucket lot.made).waiting_threads = 0) :
    Got getParkingLot k addr lot (lot.getBucket addr) := by
  rw [BucketList.getBucket]
  cases hfind : lot.find addr with
  | some b =>
    obtain ⟨hb, haddr⟩ := find_some hfind
    exact ⟨h, hb, haddr, fun _ => rfl, fun c hc => ⟨hc, rfl⟩⟩
  | none =>
    cases hinactive : lot.inactive with
    | cons n rest =>
      have hnodup := h.nodup
      have hmade := h.made
      rw [hinactive] at hnodup hmade
      have hperm : (lot.buckets ++ n :: rest).Perm (n :: (lot.buckets ++ rest)) := List.perm_middle
      have hcons := List.nodup_cons.mp (hperm.nodup_iff.mp hnodup)
      have hrest : LotOk getParkingLot k { lot with inactive := rest } :=
        ⟨hcons.2, fun c hc => hmade c (hperm.mem_iff.mpr (List.mem_cons_of_mem n hc)), h.bound,
          h.distinct⟩
      have hgot := got_activate hrest { lot.bucket n with address := some addr }
        hcons.1 (hmade n (hperm.mem_iff.mpr List.mem_cons_self)) rfl rfl hk hfind
      exact ⟨hgot.ok, hgot.active, hgot.address, hgot.waiting, hgot.keeps⟩
    | nil =>
      have hmore : LotOk getParkingLot k { lot with made := lot.made + 1 } :=
        ⟨h.nodup, fun c hc => Nat.lt_succ_of_lt (h.made c hc), h.bound, h.distinct⟩
      have hnew : lot.made ∉ lot.buckets ++ lot.inactive :=
        fun hmem => Nat.lt_irrefl _ (h.made _ hmem)
      have hgot := got_activate hmore { address := some addr } hnew (Nat.lt_succ_self _) rfl
        hnever.symm hk hfind
      rw [hinactive] at hgot
      exact ⟨hgot.ok, hgot.active, hgot.address, hgot.waiting, hgot.keeps⟩

end Lot

/-! ## The invariant -/

section Invariant

variable {getParkingLot}

variable (getParkingLot) in
/-- Whether a thread is in the wait of a bucket. -/
def counts (k : K) (b : Nat) (l : Place A) : Nat :=
  match l.waits with
  | some (addr, c) => if getParkingLot addr = k ∧ c = b then 1 else 0
  | none => 0

variable (getParkingLot) in
/-- Every bucket counts its threads, and they wait at an active bucket of their address. -/
structure Inv (s : State A K P) : Prop where
  lots : ∀ k, LotOk getParkingLot k (s.lots k)
  counted : ∀ k b, ((s.lots k).bucket b).waiting_threads =
    ∑ p, counts getParkingLot k b (s.threads p)
  waits : ∀ p addr b, (s.threads p).waits = some (addr, b) →
    b ∈ (s.lots (getParkingLot addr)).buckets ∧
      ((s.lots (getParkingLot addr)).bucket b).address = some addr

variable {s s' : State A K P} {p q : P} {addr : A} {b : Nat}

omit [DecidableEq A] [DecidableEq P] in
theorem initial_inv : Inv getParkingLot (initial : State A K P) where
  lots k := ⟨List.nodup_nil, fun b hb => absurd hb List.not_mem_nil,
    fun b hb => absurd hb List.not_mem_nil, fun b hb => absurd hb List.not_mem_nil⟩
  counted k b := Finset.sum_const_zero.symm
  waits p addr b h := by cases h

omit [DecidableEq A] [DecidableEq P] in
/-- Nobody has begun to wait, and nobody has left. -/
theorem Inv.still (h : Inv getParkingLot s) (hlots : s'.lots = s.lots)
    (hwaits : ∀ q, (s'.threads q).waits = (s.threads q).waits) : Inv getParkingLot s' where
  lots k := by
    rw [hlots]
    exact h.lots k
  counted k b := by
    rw [hlots, h.counted]
    refine Finset.sum_congr rfl fun q _ => ?_
    rw [counts, counts, hwaits]
  waits q addr b hq := by
    rw [hwaits] at hq
    rw [hlots]
    exact h.waits q addr b hq

omit [DecidableEq A] in
theorem Inv.goTo (h : Inv getParkingLot s) {l : Place A} (hl : l.waits = (s.threads p).waits) :
    Inv getParkingLot (s.goTo p l) := by
  refine h.still rfl fun q => ?_
  rw [State.goTo]
  dsimp only
  by_cases hq : q = p
  · rw [hq, Function.update_self, hl]
  · rw [Function.update_of_ne hq]

omit [DecidableEq A] [DecidableEq P] in
/-- A bucket that was never made has no threads. -/
theorem Inv.never (h : Inv getParkingLot s) (k : K) :
    ((s.lots k).bucket (s.lots k).made).waiting_threads = 0 := by
  rw [h.counted]
  refine Finset.sum_eq_zero fun q _ => ?_
  rw [counts]
  cases hwaits : (s.threads q).waits with
  | none => rfl
  | some w =>
    refine if_neg fun hsame => ?_
    obtain ⟨rfl, hmade⟩ := hsame
    have hlt := (h.lots (getParkingLot w.1)).made w.2
      (List.mem_append_left _ (h.waits q w.1 w.2 hwaits).1)
    omega

omit [DecidableEq A] [Fintype P] [DecidableEq P] in
theorem lots_update {k : K} {lot : BucketList A} (h : ∀ k, LotOk getParkingLot k (s.lots k))
    (hlot : LotOk getParkingLot k lot) (j : K) :
    LotOk getParkingLot j (Function.update s.lots k lot j) := by
  by_cases hj : j = k
  · subst hj
    rw [Function.update_self]
    exact hlot
  · rw [Function.update_of_ne hj]
    exact h j

omit [DecidableEq A] in
theorem setWaiting_waiting {lot : BucketList A} {n c : Nat} :
    ((lot.setWaiting b n).bucket c).waiting_threads =
      if c = b then n else (lot.bucket c).waiting_threads := by
  rw [BucketList.setWaiting]
  dsimp only
  by_cases hc : c = b
  · subst hc
    rw [Function.update_self, if_pos rfl]
  · rw [Function.update_of_ne hc, if_neg hc]

/-- **One more thread waits**, at an active bucket of its address. -/
theorem Inv.enter (h : Inv getParkingLot s) (hidle : (s.threads p).waits = none) (addr : A)
    (timed : Bool) : Inv getParkingLot (s.enter getParkingLot p addr timed) := by
  have hgot : Got getParkingLot (getParkingLot addr) addr (s.lots (getParkingLot addr))
      ((s.lots (getParkingLot addr)).getBucket addr) :=
    getBucket_got (h.lots (getParkingLot addr)) rfl (h.never _)
  rw [State.enter]
  generalize (s.lots (getParkingLot addr)).getBucket addr = r at hgot
  obtain ⟨b, lot⟩ := r
  dsimp only at hgot ⊢
  refine ⟨fun k => lots_update h.lots hgot.ok.setWaiting k, ?_, ?_⟩
  · intro k c
    dsimp only
    have hmove := tally_move (counts getParkingLot k c) s.threads p (.asleep addr b timed)
    have hold : counts getParkingLot k c (s.threads p) = 0 := by rw [counts, hidle]
    have hnew : counts getParkingLot k c (.asleep addr b timed) =
        if getParkingLot addr = k ∧ b = c then 1 else 0 := rfl
    rw [hold, hnew, ← h.counted k c, Nat.add_zero] at hmove
    rw [hmove]
    by_cases hk : k = getParkingLot addr
    · subst hk
      rw [Function.update_self, setWaiting_waiting, hgot.waiting, hgot.waiting]
      by_cases hc : c = b
      · subst hc
        rw [if_pos rfl, if_pos ⟨rfl, rfl⟩]
      · rw [if_neg hc, if_neg (fun heq => hc heq.2.symm), Nat.add_zero]
    · rw [Function.update_of_ne hk, if_neg (fun heq => hk heq.1.symm), Nat.add_zero]
  · intro q a c hq
    dsimp only at hq ⊢
    by_cases hqp : q = p
    · rw [hqp, Function.update_self] at hq
      obtain ⟨rfl, rfl⟩ := Prod.mk.inj (Option.some.inj hq)
      rw [Function.update_self, setWaiting_address]
      exact ⟨hgot.active, hgot.address⟩
    · rw [Function.update_of_ne hqp] at hq
      obtain ⟨hc, haddr⟩ := h.waits q a c hq
      by_cases hk : getParkingLot a = getParkingLot addr
      · rw [hk] at hc haddr ⊢
        obtain ⟨hkeeps, hsame⟩ := hgot.keeps c hc
        rw [Function.update_self, setWaiting_address, hsame]
        exact ⟨hkeeps, haddr⟩
      · rw [Function.update_of_ne hk]
        exact ⟨hc, haddr⟩

omit [DecidableEq A] in
/-- **A thread leaves**, and its bucket is put aside if nobody else waits at it. -/
theorem Inv.leave (h : Inv getParkingLot s) : Inv getParkingLot (s.leave getParkingLot p) := by
  rw [State.leave]
  cases hwaits : (s.threads p).waits with
  | none => exact h
  | some w =>
    obtain ⟨addr, b⟩ := w
    obtain ⟨hb, haddr⟩ := h.waits p addr b hwaits
    dsimp only
    have hcount : ∀ k c, ∑ q, counts getParkingLot k c (Function.update s.threads p .idle q) +
        (if getParkingLot addr = k ∧ b = c then 1 else 0) =
          ((s.lots k).bucket c).waiting_threads := by
      intro k c
      have hmove := tally_move (counts getParkingLot k c) s.threads p .idle
      have hold : counts getParkingLot k c (s.threads p) =
          if getParkingLot addr = k ∧ b = c then 1 else 0 := by rw [counts, hwaits]
      have hnew : counts getParkingLot k c (.idle : Place A) = 0 := rfl
      rw [hold, hnew, ← h.counted k c, Nat.add_zero] at hmove
      exact hmove
    have hbucket := release_bucket (s.lots (getParkingLot addr)) b
    refine ⟨fun k => lots_update h.lots ((h.lots _).release hb) k, ?_, ?_⟩
    · intro k c
      dsimp only
      have hleft := hcount k c
      by_cases hk : k = getParkingLot addr
      · subst hk
        rw [Function.update_self, hbucket, setWaiting_waiting]
        by_cases hc : c = b
        · subst hc
          rw [if_pos ⟨rfl, rfl⟩] at hleft
          rw [if_pos rfl]
          omega
        · rw [if_neg (fun heq => hc heq.2.symm)] at hleft
          rw [if_neg hc]
          omega
      · rw [if_neg (fun heq => hk heq.1.symm)] at hleft
        rw [Function.update_of_ne hk]
        omega
    · intro q a c hq
      dsimp only at hq ⊢
      by_cases hqp : q = p
      · rw [hqp, Function.update_self] at hq
        cases hq
      · have hq' := hq
        rw [Function.update_of_ne hqp] at hq
        obtain ⟨hc, hcaddr⟩ := h.waits q a c hq
        by_cases hk : getParkingLot a = getParkingLot addr
        · rw [hk] at hc hcaddr ⊢
          rw [Function.update_self, hbucket, setWaiting_address]
          refine ⟨release_keeps hc ?_, hcaddr⟩
          intro hcb
          -- this thread is still counted
          have hone : counts getParkingLot (getParkingLot addr) b
              (Function.update s.threads p .idle q) = 1 := by
            rw [counts, hq']
            exact if_pos ⟨hk, hcb⟩
          have hle := Lib.le_tally (counts getParkingLot (getParkingLot addr) b)
            (Function.update s.threads p .idle) q
          have hleft := hcount (getParkingLot addr) b
          rw [if_pos ⟨rfl, rfl⟩] at hleft
          omega
        · rw [Function.update_of_ne hk]
          exact ⟨hc, hcaddr⟩

omit [DecidableEq A] in
theorem waits_wakeUp (timeout : Bool) (l : Place A) : (l.wakeUp timeout).waits = l.waits := by
  cases l <;> rfl

variable (getParkingLot) in
/-- All that a step can do. -/
inductive Change (s : State A K P) (e : Event A P) : State A K P → Prop
  | same : Change s e s
  | enter (p : P) (addr : A) (timed : Bool) (hidle : s.threads p = .idle) :
    Change s e (s.enter getParkingLot p addr timed)
  | enterLeave (p : P) (addr : A) (timed : Bool) (hidle : s.threads p = .idle) :
    Change s e ((s.enter getParkingLot p addr timed).leave getParkingLot p)
  | leave (p : P) (hwaits : (s.threads p).waits ≠ none) : Change s e (s.leave getParkingLot p)
  | goTo (p : P) (l : Place A) (hl : l.waits = (s.threads p).waits)
    (hbefore : s.threads p = .idle ∨ (s.threads p).waits ≠ none) : Change s e (s.goTo p l)
  | notify (p : P) (one : Option P) (he : e = .notify p one)
    (hwaits : (s.threads p).waits = none) (threads : P → Place A) (hp : threads p = .idle)
    (hother : ∀ q, q ≠ p →
      threads q = s.threads q ∨ threads q = (s.threads q).wakeUp false) :
    Change s e { s with threads }

theorem step_change {e : Event A P} (hs : step getParkingLot s e = some s') :
    Change getParkingLot s e s' := by
  cases e with
  | park p addr timed check again =>
    rw [step] at hs
    split at hs
    next hplace =>
      split at hs
      next => exact Option.some.inj hs ▸ .same
      next =>
        split at hs
        next => exact Option.some.inj hs ▸ .enterLeave p addr timed hplace
        next => exact Option.some.inj hs ▸ .enter p addr timed hplace
    next => cases hs
  | wake p timeout =>
    rw [step] at hs
    split at hs
    next addr b timed hplace =>
      split at hs
      next => cases hs
      next =>
        exact Option.some.inj hs ▸
          .goTo p _ (by rw [hplace]; rfl) (.inr (by rw [hplace]; exact Option.some_ne_none _))
    next => cases hs
  | resume p check =>
    rw [step] at hs
    split at hs
    next addr b timed timeout hplace =>
      have hwaits : (s.threads p).waits ≠ none := by
        rw [hplace]
        exact Option.some_ne_none _
      split at hs
      next => exact Option.some.inj hs ▸ .leave p hwaits
      next => exact Option.some.inj hs ▸ .goTo p _ (by rw [hplace]; rfl) (.inr hwaits)
    next => cases hs
  | unpark p addr all =>
    rw [step] at hs
    split at hs
    next hplace =>
      split at hs
      next => exact Option.some.inj hs ▸ .goTo p _ (by rw [hplace]; rfl) (.inl hplace)
      next => exact Option.some.inj hs ▸ .same
    next => cases hs
  | notify p one =>
    rw [step] at hs
    split at hs
    next addr b all hplace =>
      have hwaits : (s.threads p).waits = none := by rw [hplace]; rfl
      dsimp only at hs
      split at hs
      next =>
        obtain rfl := Option.some.inj hs
        refine .notify p one rfl hwaits _ (if_pos rfl) fun q hq => ?_
        rw [if_neg hq]
        split
        next => exact .inr rfl
        next => exact .inl rfl
      next =>
        split at hs
        next r =>
          split at hs
          next hsleeps =>
            obtain rfl := Option.some.inj hs
            have hne : p ≠ r := by
              intro heq
              rw [← heq, hplace] at hsleeps
              cases hsleeps
            refine .notify p (some r) rfl hwaits _ ?_ fun q hq => ?_
            · rw [Function.update_of_ne hne]
              exact Function.update_self _ _ _
            · by_cases hqr : q = r
              · rw [hqr, Function.update_self]
                exact .inr rfl
              · rw [Function.update_of_ne hqr]
                exact .inl (Function.update_of_ne hq _ _)
          next => cases hs
        next =>
          split at hs
          next =>
            obtain rfl := Option.some.inj hs
            exact .notify p none rfl hwaits _ (Function.update_self _ _ _)
              fun q hq => .inl (Function.update_of_ne hq _ _)
          next => cases hs
    next => cases hs

theorem step_inv {e : Event A P} (h : Inv getParkingLot s)
    (hs : step getParkingLot s e = some s') : Inv getParkingLot s' := by
  cases step_change hs with
  | same => exact h
  | enter p addr timed hidle => exact h.enter (by rw [hidle]; rfl) addr timed
  | enterLeave p addr timed hidle => exact (h.enter (by rw [hidle]; rfl) addr timed).leave
  | leave p _ => exact h.leave
  | goTo p l hl _ => exact h.goTo hl
  | notify p one _ hwaits threads hp hother =>
    refine h.still rfl fun q => ?_
    show (threads q).waits = (s.threads q).waits
    by_cases hq : q = p
    · rw [hq, hp, hwaits]
      rfl
    · rcases hother q hq with heq | heq
      · rw [heq]
      · rw [heq, waits_wakeUp]

/-! ## What a thread finds -/

omit [Fintype P] [DecidableEq A] [DecidableEq K] in
/-- The other threads are where they were. -/
theorem goTo_other {l : Place A} (hq : q ≠ p) : (s.goTo p l).threads q = s.threads q :=
  Function.update_of_ne hq _ _

omit [Fintype P] in
theorem enter_other {timed : Bool} (hq : q ≠ p) :
    (s.enter getParkingLot p addr timed).threads q = s.threads q :=
  Function.update_of_ne hq _ _

omit [Fintype P] [DecidableEq A] in
theorem leave_other (hq : q ≠ p) : (s.leave getParkingLot p).threads q = s.threads q := by
  rw [State.leave]
  split
  next => exact Function.update_of_ne hq _ _
  next => rfl

omit [Fintype P] [DecidableEq A] in
theorem leave_self (hwaits : (s.threads p).waits ≠ none) :
    (s.leave getParkingLot p).threads p = .idle := by
  rw [State.leave]
  split
  next => exact Function.update_self _ _ _
  next hnone => exact absurd hnone hwaits

omit [Fintype P] in
/-- Who waits goes on waiting at the same bucket, or leaves. -/
theorem Change.waits {e : Event A P} (h : Change getParkingLot s e s')
    (hq : (s.threads q).waits ≠ none) :
    (s'.threads q).waits = (s.threads q).waits ∨ (s'.threads q).waits = none := by
  cases h with
  | same => exact .inl rfl
  | enter p addr timed hidle =>
    refine .inl (congrArg _ (enter_other ?_))
    intro heq
    exact hq (by rw [heq, hidle]; rfl)
  | enterLeave p addr timed hidle =>
    have hne : q ≠ p := by
      intro heq
      exact hq (by rw [heq, hidle]; rfl)
    exact .inl (congrArg _ ((leave_other hne).trans (enter_other hne)))
  | leave p hwaits =>
    by_cases hqp : q = p
    · rw [hqp, leave_self hwaits]
      exact .inr rfl
    · exact .inl (congrArg _ (leave_other hqp))
  | goTo p l hl _ =>
    by_cases hqp : q = p
    · rw [hqp, ← hl]
      exact .inl (congrArg _ (Function.update_self _ _ _))
    · exact .inl (congrArg _ (goTo_other hqp))
  | notify p one he hwaits threads hp hother =>
    have hne : q ≠ p := by
      intro heq
      exact hq (heq ▸ hwaits)
    show (threads q).waits = _ ∨ _
    rcases hother q hne with heq | heq
    · rw [heq]
      exact .inl rfl
    · rw [heq, waits_wakeUp]
      exact .inl rfl

omit [Fintype P] in
/-- Who is about to notify a bucket is about to until it does. -/
theorem Change.notifies {e : Event A P} (h : Change getParkingLot s e s') {all : Bool}
    (hp : s.threads p = .notify addr b all) (he : ∀ one, e ≠ .notify p one) :
    s'.threads p = .notify addr b all := by
  have hwaits : (s.threads p).waits = none := by rw [hp]; rfl
  rw [← hp]
  cases h with
  | same => rfl
  | enter r addr timed hidle =>
    refine enter_other ?_
    intro heq
    subst heq
    rw [hp] at hidle
    cases hidle
  | enterLeave r addr timed hidle =>
    have hne : p ≠ r := by
      intro heq
      subst heq
      rw [hp] at hidle
      cases hidle
    exact (leave_other hne).trans (enter_other hne)
  | leave r hr =>
    refine leave_other ?_
    intro heq
    subst heq
    exact hr hwaits
  | goTo r l _ hbefore =>
    refine goTo_other ?_
    intro heq
    subst heq
    rcases hbefore with hidle | hr
    · rw [hp] at hidle
      cases hidle
    · exact hr hwaits
  | notify r one hone _ threads _ hother =>
    have hne : p ≠ r := by
      intro heq
      subst heq
      exact he one hone
    show threads p = _
    rcases hother p hne with heq | heq
    · exact heq
    · rw [heq, hp]
      rfl

/-- The look-up finds the bucket of a thread that waits. -/
theorem unpark_finds (h : Inv getParkingLot s) {all : Bool}
    (hq : (s.threads q).waits = some (addr, b))
    (hs : step getParkingLot s (.unpark p addr all) = some s') :
    s'.threads p = .notify addr b all ∧ (s'.threads q).waits = some (addr, b) := by
  obtain ⟨hb, haddr⟩ := h.waits q addr b hq
  rw [step] at hs
  split at hs
  next hidle =>
    rw [(h.lots (getParkingLot addr)).find hb haddr] at hs
    obtain rfl := Option.some.inj hs
    refine ⟨Function.update_self _ _ _, ?_⟩
    rw [goTo_other, hq]
    intro heq
    subst heq
    rw [hidle] at hq
    cases hq
  next => cases hs

omit [DecidableEq A] in
/-- A thread in a wait, when its bucket is notified. -/
theorem wakeUp_awake {l : Place A} (hl : l.waits = some (addr, b)) :
    ∃ timed timeout, (if l.sleepsAt getParkingLot (getParkingLot addr) b then l.wakeUp false
      else l) = .awake addr b timed timeout := by
  cases l with
  | idle => cases hl
  | notify addr' b' all => cases hl
  | asleep addr' b' timed =>
    obtain ⟨rfl, rfl⟩ := Prod.mk.inj (Option.some.inj hl)
    refine ⟨timed, false, if_pos ?_⟩
    rw [Place.sleepsAt, decide_eq_true rfl, decide_eq_true rfl]
    rfl
  | awake addr' b' timed timeout =>
    obtain ⟨rfl, rfl⟩ := Prod.mk.inj (Option.some.inj hl)
    exact ⟨timed, timeout, if_neg Bool.false_ne_true⟩

/-- Who waits at a bucket of which all are notified is awake then. -/
theorem notify_wakes (hp : s.threads p = .notify addr b true)
    (hq : (s.threads q).waits = some (addr, b)) (one : Option P) :
    ∃ s', step getParkingLot s (.notify p one) = some s' ∧
      ∃ timed timeout, s'.threads q = .awake addr b timed timeout := by
  rw [step, hp]
  refine ⟨_, rfl, ?_⟩
  have hne : q ≠ p := by
    intro heq
    subst heq
    rw [hp] at hq
    cases hq
  dsimp only
  rw [if_neg hne]
  exact wakeUp_awake hq

/-! ## The result -/

variable (getParkingLot) in
/-- What holds of the buckets at any time. -/
structure Sound (s : State A K P) : Prop where
  one_bucket : ∀ (addr : A) (j k : K) (b c : Nat),
    b ∈ (s.lots j).buckets → ((s.lots j).bucket b).address = some addr →
    c ∈ (s.lots k).buckets → ((s.lots k).bucket c).address = some addr → j = k ∧ b = c
  counted : ∀ (addr : A) (k : K) (b : Nat),
    b ∈ (s.lots k).buckets → ((s.lots k).bucket b).address = some addr →
    ((s.lots k).bucket b).waiting_threads =
      (Finset.univ.filter fun p => (s.threads p).waits = some (addr, b)).card
  bound : ∀ (p : P) (addr : A) (b : Nat), (s.threads p).waits = some (addr, b) →
    b ∈ (s.lots (getParkingLot addr)).buckets ∧
      b ∉ (s.lots (getParkingLot addr)).inactive ∧
      ((s.lots (getParkingLot addr)).bucket b).address = some addr

omit [DecidableEq P] in
theorem Inv.sound (h : Inv getParkingLot s) : Sound getParkingLot s where
  one_bucket addr j k b c hb hbaddr hc hcaddr := by
    have hlot : ∀ k b, b ∈ (s.lots k).buckets → ((s.lots k).bucket b).address = some addr →
        getParkingLot addr = k := by
      intro k b hb haddr
      obtain ⟨a, ha, hk⟩ := (h.lots k).bound b hb
      rw [haddr] at ha
      rw [Option.some.inj ha, hk]
    have hj := hlot j b hb hbaddr
    have hk := hlot k c hc hcaddr
    subst hj
    subst hk
    exact ⟨rfl, (h.lots _).distinct b hb c hc (hbaddr.trans hcaddr.symm)⟩
  counted addr k b hb haddr := by
    rw [h.counted, Finset.card_filter]
    refine Finset.sum_congr rfl fun p _ => ?_
    rw [counts]
    cases hwaits : (s.threads p).waits with
    | none => exact (if_neg (fun heq => by cases heq)).symm
    | some w =>
      obtain ⟨a, c⟩ := w
      dsimp only
      obtain ⟨hc, hcaddr⟩ := h.waits p a c hwaits
      refine if_congr ⟨fun hsame => ?_, fun heq => ?_⟩ rfl rfl
      · obtain ⟨rfl, rfl⟩ := hsame
        rw [hcaddr] at haddr
        rw [Option.some.inj haddr]
      · obtain ⟨rfl, rfl⟩ := Prod.mk.inj (Option.some.inj heq)
        obtain ⟨a', ha', hk⟩ := (h.lots k).bound c hb
        rw [haddr] at ha'
        exact ⟨by rw [Option.some.inj ha', hk], rfl⟩
  bound p addr b hp := by
    obtain ⟨hb, haddr⟩ := h.waits p addr b hp
    refine ⟨hb, fun hinactive => ?_, haddr⟩
    exact (List.nodup_append.mp (h.lots (getParkingLot addr)).nodup).2.2 b hb b hinactive rfl

/-- The thread has not left, and the other one has yet to notify. -/
def Pending (p q : P) (s : State A K P) (e : Event A P) : Prop :=
  (s.threads q).waits ≠ none ∧ ∀ one, e ≠ .notify p one

variable (getParkingLot) in
/-- Unless the thread leaves, the bucket at which it waits is notified. -/
def Notified (p q : P) (addr : A) (b : Nat) (s : State A K P) : Prop :=
  ∀ fs t, Run (step getParkingLot) (Pending p q) s fs t → (t.threads q).waits ≠ none →
    t.threads p = .notify addr b true ∧
      ∀ one, ∃ t', step getParkingLot t (.notify p one) = some t' ∧
        ∃ timed timeout, t'.threads q = .awake addr b timed timeout

/-- Between the look-up and the notification: a thread at the bucket has left, or it is there. -/
theorem pending_run {fs : List (Event A P)} (hrun : Run (step getParkingLot) (Pending p q) s fs s')
    (hp : s.threads p = .notify addr b true) (hq : (s.threads q).waits = some (addr, b)) :
    s'.threads p = .notify addr b true ∧
      ((s'.threads q).waits = some (addr, b) ∨ (s'.threads q).waits = none) := by
  refine hrun.invariant (P := fun t => t.threads p = .notify addr b true ∧
    ((t.threads q).waits = some (addr, b) ∨ (t.threads q).waits = none)) ⟨hp, .inl hq⟩ ?_
  intro t e t' ht hok hs
  obtain ⟨hp, hq⟩ := ht
  have hq := hq.resolve_right hok.1
  have hchange := step_change hs
  refine ⟨hchange.notifies hp hok.2, ?_⟩
  rw [← hq]
  exact hchange.waits hok.1

/-- **The parking lot.** In every run: an address has one active bucket at most, which counts the
threads in its wait; who waits does so at an active bucket of the address; and who waits when
somebody looks the address up to unpark all is notified, unless it leaves before. -/
theorem parking_lot {es : List (Event A P)}
    (h : Run (step getParkingLot) Always (initial : State A K P) es s) :
    Sound getParkingLot s ∧
      ∀ p q addr b s', (s.threads q).waits = some (addr, b) →
        step getParkingLot s (.unpark p addr true) = some s' →
        Notified getParkingLot p q addr b s' := by
  have hinv : Inv getParkingLot s := h.invariant initial_inv fun _ _ _ ht _ hs => step_inv ht hs
  refine ⟨hinv.sound, ?_⟩
  intro p q addr b s' hq hs fs t hrun hstays
  obtain ⟨hp, hq'⟩ := unpark_finds hinv hq hs
  obtain ⟨hpt, hqt⟩ := pending_run hrun hp hq'
  exact ⟨hpt, notify_wakes hpt (hqt.resolve_right hstays)⟩

end Invariant

/-- A thread waits at one address while another one looks it up; it leaves because of the time, and
waits at the other address, at the same bucket, when that is notified. -/
private def recycled : List (Event Bool Bool) :=
  [.park true true true false false, .unpark false true true, .wake true true, .resume true false,
    .park true false false false false, .notify false none]

theorem parking_lot_recycled : ∃ s,
    Run (step fun _ : Bool => ()) Always (initial : State Bool Unit Bool) recycled s ∧
    (Sound (fun _ => ()) s ∧ ∀ p q addr b s', (s.threads q).waits = some (addr, b) →
      step (fun _ => ()) s (.unpark p addr true) = some s' →
        Notified (fun _ => ()) p q addr b s') := by
  have hends : (execute (step fun _ : Bool => ()) Always (initial : State Bool Unit Bool)
      recycled).map (fun s => decide (s.threads true = .awake false 0 false false)) =
        some true := by
    decide +kernel
  obtain ⟨s, hrun, -⟩ := Run.exists_of_execute hends
  exact ⟨s, hrun, parking_lot hrun⟩

end Haybarn.Utils.ParkingLot
