import Haybarn.Lib.Run
import Haybarn.Lib.ReadWrite

/-!
# The shared mutex (`shared_mutex.cc`)

One word of 64 bits: a bit for the exclusive lock, two bits that say that somebody waits, and the
number of readers. Every method is a few atomic operations on it, and between them any other thread
may make some of its own.

`try_lock_shared` loads the word, adds one to it, and looks at the exclusive bit again: but of the
word that it has loaded, not of the one that it has added to. A writer that has come in between is
not noticed (`reader_beside_writer`). That is the only way in which exclusion fails
(`lock_exclusion`): while no thread adds one to a word with the exclusive bit, or to one with no
room for a reader, nobody holds the lock beside a writer, and the readers are counted right.

Mirroring notes:
- A `Place` is the atomic operation that a thread makes next, with what it has loaded; a step of a
  thread makes that operation and runs to the next one.
- A thread may hold several shared locks. What it unlocks it has locked.
- `compare_exchange_weak` may fail for no reason; the event says whether it does.
- A parked thread looks at the word any time it is woken up, and some times before it sleeps
  (`ParkWithSpinning`). How it sleeps does not concern the word, and neither does `UnparkAll`.
- The assertions of `unlock` and `unlock_shared` are left out; they hold by `Placed`.
-/

namespace Haybarn.Utils.SharedMutex

open Lib (Always Run execute ReadWrite)

/-! ## The word -/

abbrev Word := BitVec 64

def EXCLUSIVE : Word := 1 <<< 63
def WAITING_WRITER : Word := 1 <<< 62
def WAITING_READER : Word := 1 <<< 61
def ANYONE_WAITING : Word := WAITING_WRITER ||| WAITING_READER
def READER_COUNT : Word := ~~~(EXCLUSIVE ||| ANYONE_WAITING)

def hasBits (value bits : Word) : Bool := value &&& bits != 0

/-- The number of readers. -/
def readers (value : Word) : Nat := (value &&& READER_COUNT).toNat

/-! ## The methods -/

inductive Method
  | try_lock_shared
  | try_lock
  | lock
  | unlock
  | lock_shared
  | unlock_shared
  deriving DecidableEq

/-- The next atomic operation of a thread. A method that waits tries again (`wait`). -/
inductive Place
  | idle
  /-- `data.load()` of `try_lock_shared` -/
  | sharedLoad (wait : Bool)
  /-- `data.fetch_add(1)` -/
  | sharedAdd (wait : Bool) (value : Word)
  /-- `--data` of `try_lock_shared` -/
  | sharedTakeBack (wait : Bool)
  /-- `data.load()` of `try_lock` -/
  | exclusiveLoad (wait : Bool)
  /-- `data.compare_exchange_weak(value, value | EXCLUSIVE)` -/
  | exclusiveSwap (wait : Bool) (value : Word)
  /-- `data.load()` of `tryMarkAsWaiting` -/
  | markLoad (writer : Bool)
  /-- `data.compare_exchange_weak(value, value | …)` of `tryMarkAsWaiting` -/
  | markSwap (writer : Bool) (value : Word)
  /-- `data.load()` of the check, spinning or parked -/
  | park (writer : Bool)
  /-- `data.fetch_and(READER_COUNT)` -/
  | unlock
  /-- `data.fetch_sub(1)` -/
  | unlockShared
  /-- `data.compare_exchange_weak(prev, prev & ~WAITING_READER)` -/
  | clearWaiting (prev : Word)
  deriving DecidableEq

structure Thread where
  place : Place := .idle
  /-- How many shared locks it holds. -/
  shared : Nat := 0
  exclusive : Bool := false
  deriving DecidableEq

/-- The start of a method. -/
def Thread.call (t : Thread) : Method → Option Thread
  | .try_lock_shared => some { t with place := .sharedLoad false }
  | .try_lock => some { t with place := .exclusiveLoad false }
  | .lock => some { t with place := .exclusiveLoad true }
  | .unlock => if t.exclusive then some { t with place := .unlock } else none
  | .lock_shared => some { t with place := .sharedLoad true }
  | .unlock_shared => if 0 < t.shared then some { t with place := .unlockShared } else none

/-- A try did not succeed: the method returns false, or it marks the lock as waited for. -/
def failed (writer wait : Bool) : Place := if wait then .markLoad writer else .idle

/-- The loop of `lock` or `lock_shared` once more. -/
def again (writer : Bool) : Place := if writer then .exclusiveLoad true else .sharedLoad true

/-- The body of the loop of `try_lock`. -/
def trySwap (wait : Bool) (value : Word) : Place :=
  if hasBits value EXCLUSIVE || value &&& READER_COUNT != 0 then failed true wait
  else .exclusiveSwap wait value

/-- The next atomic operation of a thread, on a word. -/
def Thread.atomic (t : Thread) (data : Word) (spurious : Bool) : Option (Word × Thread) :=
  match t.place with
  | .idle => none
  | .sharedLoad wait =>
    if hasBits data EXCLUSIVE || hasBits data WAITING_WRITER then
      some (data, { t with place := failed false wait })
    else some (data, { t with place := .sharedAdd wait data })
  | .sharedAdd wait value =>
    -- the bit is looked for in the word that was loaded before
    if hasBits value EXCLUSIVE then some (data + 1, { t with place := .sharedTakeBack wait })
    else some (data + 1, { t with place := .idle, shared := t.shared + 1 })
  | .sharedTakeBack wait => some (data - 1, { t with place := failed false wait })
  | .exclusiveLoad wait => some (data, { t with place := trySwap wait data })
  | .exclusiveSwap wait value =>
    if data = value ∧ spurious = false then
      some (value ||| EXCLUSIVE, { t with place := .idle, exclusive := true })
    else some (data, { t with place := trySwap wait data })
  | .markLoad writer =>
    if hasBits data ANYONE_WAITING then some (data, { t with place := .park writer })
    else some (data, { t with place := .markSwap writer data })
  | .markSwap writer value =>
    if data = value ∧ spurious = false then
      some (value ||| (if writer then WAITING_WRITER else WAITING_READER),
        { t with place := .park writer })
    else some (data, { t with place := again writer })
  | .park writer =>
    if !hasBits data EXCLUSIVE || !hasBits data ANYONE_WAITING then
      some (data, { t with place := again writer })
    else some (data, t)
  | .unlock => some (data &&& READER_COUNT, { t with place := .idle, exclusive := false })
  | .unlockShared =>
    let place :=
      if readers data = 1 ∧ hasBits data ANYONE_WAITING then Place.clearWaiting (data - 1)
      else .idle
    some (data - 1, { t with place, shared := t.shared - 1 })
  | .clearWaiting prev =>
    if data = prev ∧ spurious = false then
      some (prev &&& ~~~WAITING_READER, { t with place := .idle })
    else some (data, { t with place := .clearWaiting data })

/-! ## All threads -/

variable {P : Type}

structure State (P : Type) where
  data : Word
  threads : P → Thread

def initial : State P := ⟨0, fun _ => {}⟩

inductive Event (P : Type)
  | call (p : P) (m : Method)
  | atomic (p : P) (spurious : Bool)

variable [DecidableEq P]

def step (s : State P) : Event P → Option (State P)
  | .call p m =>
    if (s.threads p).place = .idle then
      ((s.threads p).call m).map fun t => { s with threads := Function.update s.threads p t }
    else none
  | .atomic p spurious =>
    ((s.threads p).atomic s.data spurious).map fun r =>
      { data := r.1, threads := Function.update s.threads p r.2 }

/-- Nobody has locked the mutex for itself between the load and the add of `try_lock_shared`, and
there is room for a reader. -/
def Place.undisturbed (data : Word) : Place → Bool
  | .sharedAdd _ _ => !hasBits data EXCLUSIVE && decide (readers data + 1 < 2 ^ 61)
  | _ => true

def Undisturbed (s : State P) : Event P → Prop
  | .call _ _ => True
  | .atomic p _ => (s.threads p).place.undisturbed s.data = true

instance (s : State P) : (e : Event P) → Decidable (Undisturbed s e)
  | .call _ _ => inferInstanceAs (Decidable True)
  | .atomic p _ => inferInstanceAs (Decidable ((s.threads p).place.undisturbed s.data = true))

/-! ## What the operations do to the word -/

theorem readers_eq (value : Word) : readers value = value.toNat % 2 ^ 61 := by
  have hmask : READER_COUNT.toNat = 2 ^ 61 - 1 := by decide
  rw [readers, BitVec.toNat_and, hmask, Nat.and_two_pow_sub_one_eq_mod]

theorem exclusive_msb (value : Word) : hasBits value EXCLUSIVE = value.msb := by
  have hbit : EXCLUSIVE = BitVec.twoPow 64 63 := by decide
  rw [hasBits, hbit, BitVec.and_twoPow, BitVec.msb_eq_getLsbD_last]
  show ((if value.getLsbD 63 = true then _ else _) != 0) = value.getLsbD 63
  cases value.getLsbD 63 <;> rfl

theorem exclusive_eq (value : Word) : hasBits value EXCLUSIVE = decide (2 ^ 63 ≤ value.toNat) := by
  rw [exclusive_msb]
  exact BitVec.msb_eq_decide value

/-- One more reader, when there is room. -/
theorem add_one {value : Word} (hroom : readers value + 1 < 2 ^ 61) :
    readers (value + 1) = readers value + 1 ∧
      hasBits (value + 1) EXCLUSIVE = hasBits value EXCLUSIVE := by
  rw [readers_eq] at hroom
  have hsum : (value + 1).toNat = value.toNat + 1 := by
    rw [BitVec.toNat_add_of_lt]
    · rfl
    · show value.toNat + 1 < 2 ^ 64
      have hlt := value.isLt
      omega
  rw [readers_eq, readers_eq, exclusive_eq, exclusive_eq, hsum]
  refine ⟨by omega, decide_eq_decide.mpr ?_⟩
  omega

/-- One reader less, when there is one. -/
theorem sub_one {value : Word} (hsome : 0 < readers value) :
    readers (value - 1) = readers value - 1 ∧
      hasBits (value - 1) EXCLUSIVE = hasBits value EXCLUSIVE := by
  rw [readers_eq] at hsome
  have hdiff : (value - 1).toNat = value.toNat - 1 := by
    have hle : (1 : Word) ≤ value := by
      rw [BitVec.le_def]
      show 1 ≤ value.toNat
      omega
    rw [BitVec.toNat_sub_of_le hle]
    rfl
  rw [readers_eq, readers_eq, exclusive_eq, exclusive_eq, hdiff]
  refine ⟨by omega, decide_eq_decide.mpr ?_⟩
  omega

/-- Other bits are set. -/
theorem readers_or {value bits : Word} (h : bits &&& READER_COUNT = 0#64) :
    readers (value ||| bits) = readers value := by
  have hand : (value ||| bits) &&& READER_COUNT = value &&& READER_COUNT := by
    rw [BitVec.and_comm, BitVec.and_or_distrib_left, BitVec.and_comm _ bits, h, BitVec.or_zero,
      BitVec.and_comm]
  rw [readers, hand, readers]

/-- Other bits are cleared. -/
theorem readers_and {value bits : Word} (h : bits &&& READER_COUNT = READER_COUNT) :
    readers (value &&& bits) = readers value := by
  rw [readers, BitVec.and_assoc, h, readers]

theorem exclusive_or (value bits : Word) :
    hasBits (value ||| bits) EXCLUSIVE = (hasBits value EXCLUSIVE || hasBits bits EXCLUSIVE) := by
  rw [exclusive_msb, exclusive_msb, exclusive_msb, BitVec.msb_or]

theorem exclusive_and (value bits : Word) :
    hasBits (value &&& bits) EXCLUSIVE = (hasBits value EXCLUSIVE && hasBits bits EXCLUSIVE) := by
  rw [exclusive_msb, exclusive_msb, exclusive_msb, BitVec.msb_and]

/-! ## What an operation does -/

/-- What a thread knows at a place. -/
def Thread.Placed (t : Thread) : Prop :=
  match t.place with
  | .sharedAdd _ value => hasBits value EXCLUSIVE = false ∧ t.exclusive = false
  | .sharedTakeBack _ => False
  | .exclusiveSwap _ value => hasBits value EXCLUSIVE = false ∧ readers value = 0
  | .unlock => t.exclusive = true
  | .unlockShared => 0 < t.shared
  | _ => True

/-- An operation of a thread leaves its locks alone, or it takes one or lets one go; and the word
says so. -/
inductive Move (d d' : Word) (t t' : Thread) : Prop
  | keep (hreaders : readers d' = readers d)
    (hwriter : hasBits d' EXCLUSIVE = hasBits d EXCLUSIVE) (hshared : t'.shared = t.shared)
    (hexclusive : t'.exclusive = t.exclusive)
  | share (hfree : hasBits d EXCLUSIVE = false) (hreaders : readers d' = readers d + 1)
    (hwriter : hasBits d' EXCLUSIVE = false) (hshared : t'.shared = t.shared + 1)
    (hexclusive : t'.exclusive = t.exclusive)
  | unshare (hreaders : readers d' = readers d - 1)
    (hwriter : hasBits d' EXCLUSIVE = hasBits d EXCLUSIVE) (hshared : t'.shared + 1 = t.shared)
    (hexclusive : t'.exclusive = t.exclusive)
  | take (hfree : hasBits d EXCLUSIVE = false) (hnone : readers d = 0) (hreaders : readers d' = 0)
    (hwriter : hasBits d' EXCLUSIVE = true) (hshared : t'.shared = t.shared)
    (hexclusive : t'.exclusive = true)
  | release (hheld : t.exclusive = true) (hreaders : readers d' = readers d)
    (hwriter : hasBits d' EXCLUSIVE = false) (hshared : t'.shared = t.shared)
    (hexclusive : t'.exclusive = false)

/-- The thread has only gone on. -/
theorem Move.goOn (d : Word) (t : Thread) (place : Place) : Move d d t { t with place } :=
  .keep rfl rfl rfl rfl

section

variable {shared : Nat} {exclusive : Bool}

theorem placed_failed (writer wait : Bool) :
    Thread.Placed ⟨failed writer wait, shared, exclusive⟩ := by
  cases wait <;> trivial

theorem placed_again (writer : Bool) : Thread.Placed ⟨again writer, shared, exclusive⟩ := by
  cases writer <;> trivial

theorem placed_trySwap (wait : Bool) (value : Word) :
    Thread.Placed ⟨trySwap wait value, shared, exclusive⟩ := by
  unfold trySwap
  split
  next => exact placed_failed true wait
  next hfree =>
    rw [Bool.or_eq_true, not_or, Bool.not_eq_true, Bool.not_eq_true] at hfree
    refine ⟨hfree.1, ?_⟩
    have hzero : value &&& READER_COUNT = 0 := by simpa using hfree.2
    rw [readers, hzero]
    rfl

end

theorem call_placed {t t' : Thread} {m : Method} (h : t.call m = some t') :
    t'.Placed ∧ t'.shared = t.shared ∧ t'.exclusive = t.exclusive := by
  cases m with
  | unlock =>
    rw [Thread.call] at h
    split at h
    next hheld =>
      obtain rfl := Option.some.inj h
      exact ⟨hheld, rfl, rfl⟩
    next => cases h
  | unlock_shared =>
    rw [Thread.call] at h
    split at h
    next hheld =>
      obtain rfl := Option.some.inj h
      exact ⟨hheld, rfl, rfl⟩
    next => cases h
  | _ =>
    obtain rfl := Option.some.inj h
    exact ⟨trivial, rfl, rfl⟩

/-- **An operation leaves a thread where it should be, and is one of the five moves**: the only
one that could go wrong is the add of `try_lock_shared`. -/
theorem atomic_move {t t' : Thread} {d d' : Word} {spurious : Bool} (hplaced : t.Placed)
    (hexclusive : t.exclusive = true → hasBits d EXCLUSIVE = true)
    (hshared : t.shared ≤ readers d) (hok : t.place.undisturbed d = true)
    (h : t.atomic d spurious = some (d', t')) : t'.Placed ∧ Move d d' t t' := by
  obtain ⟨place, shared, exclusive⟩ := t
  cases place with
  | idle => cases h
  | sharedLoad wait =>
    dsimp only [Thread.atomic] at h
    split at h
    next =>
      obtain ⟨rfl, rfl⟩ := Prod.mk.inj (Option.some.inj h)
      exact ⟨placed_failed false wait, Move.goOn _ _ _⟩
    next hfree =>
      obtain ⟨rfl, rfl⟩ := Prod.mk.inj (Option.some.inj h)
      rw [Bool.or_eq_true, not_or, Bool.not_eq_true] at hfree
      refine ⟨⟨hfree.1, Bool.eq_false_iff.mpr fun hheld => ?_⟩, Move.goOn _ _ _⟩
      rw [hexclusive hheld] at hfree
      cases hfree.1
  | sharedAdd wait value =>
    obtain ⟨hvalue, -⟩ := hplaced
    rw [Place.undisturbed, Bool.and_eq_true, Bool.not_eq_true', decide_eq_true_eq] at hok
    obtain ⟨hreaders, hwriter⟩ := add_one hok.2
    dsimp only [Thread.atomic] at h
    rw [if_neg (by rw [hvalue]; exact Bool.false_ne_true)] at h
    obtain ⟨rfl, rfl⟩ := Prod.mk.inj (Option.some.inj h)
    exact ⟨trivial, .share hok.1 hreaders (hwriter.trans hok.1) rfl rfl⟩
  | sharedTakeBack wait => exact hplaced.elim
  | exclusiveLoad wait =>
    obtain ⟨rfl, rfl⟩ := Prod.mk.inj (Option.some.inj h)
    exact ⟨placed_trySwap wait d, Move.goOn _ _ _⟩
  | exclusiveSwap wait value =>
    obtain ⟨hfree, hnone⟩ := hplaced
    dsimp only [Thread.atomic] at h
    split at h
    next hsame =>
      obtain ⟨rfl, rfl⟩ := Prod.mk.inj (Option.some.inj h)
      obtain ⟨rfl, -⟩ := hsame
      refine ⟨trivial, .take hfree hnone ?_ ?_ rfl rfl⟩
      · rw [readers_or (by decide), hnone]
      · rw [exclusive_or, hfree]
        decide
    next =>
      obtain ⟨rfl, rfl⟩ := Prod.mk.inj (Option.some.inj h)
      exact ⟨placed_trySwap wait d, Move.goOn _ _ _⟩
  | markLoad writer =>
    dsimp only [Thread.atomic] at h
    split at h
    next =>
      obtain ⟨rfl, rfl⟩ := Prod.mk.inj (Option.some.inj h)
      exact ⟨trivial, Move.goOn _ _ _⟩
    next =>
      obtain ⟨rfl, rfl⟩ := Prod.mk.inj (Option.some.inj h)
      exact ⟨trivial, Move.goOn _ _ _⟩
  | markSwap writer value =>
    dsimp only [Thread.atomic] at h
    split at h
    next hsame =>
      obtain ⟨rfl, rfl⟩ := Prod.mk.inj (Option.some.inj h)
      obtain ⟨rfl, -⟩ := hsame
      have hmask : ∀ writer : Bool,
          hasBits (if writer then WAITING_WRITER else WAITING_READER) EXCLUSIVE = false := by
        decide
      refine ⟨trivial, .keep (readers_or ?_) ?_ rfl rfl⟩
      · cases writer <;> decide
      · rw [exclusive_or, hmask, Bool.or_false]
    next =>
      obtain ⟨rfl, rfl⟩ := Prod.mk.inj (Option.some.inj h)
      exact ⟨placed_again writer, Move.goOn _ _ _⟩
  | park writer =>
    dsimp only [Thread.atomic] at h
    split at h
    next =>
      obtain ⟨rfl, rfl⟩ := Prod.mk.inj (Option.some.inj h)
      exact ⟨placed_again writer, Move.goOn _ _ _⟩
    next =>
      obtain ⟨rfl, rfl⟩ := Prod.mk.inj (Option.some.inj h)
      exact ⟨trivial, Move.goOn _ _ _⟩
  | unlock =>
    obtain ⟨rfl, rfl⟩ := Prod.mk.inj (Option.some.inj h)
    have hmask : hasBits READER_COUNT EXCLUSIVE = false := by decide
    refine ⟨trivial, .release hplaced (readers_and (by decide)) ?_ rfl rfl⟩
    rw [exclusive_and, hmask, Bool.and_false]
  | unlockShared =>
    have hheld : 0 < shared := hplaced
    obtain ⟨hreaders, hwriter⟩ := sub_one (Nat.lt_of_lt_of_le hheld hshared)
    dsimp only [Thread.atomic] at h
    obtain ⟨rfl, rfl⟩ := Prod.mk.inj (Option.some.inj h)
    refine ⟨?_, .unshare hreaders hwriter (Nat.sub_add_cancel hheld) rfl⟩
    split
    next => trivial
    next => trivial
  | clearWaiting prev =>
    dsimp only [Thread.atomic] at h
    split at h
    next hsame =>
      obtain ⟨rfl, rfl⟩ := Prod.mk.inj (Option.some.inj h)
      obtain ⟨rfl, -⟩ := hsame
      have hmask : hasBits (~~~WAITING_READER) EXCLUSIVE = true := by decide
      refine ⟨trivial, .keep (readers_and (by decide)) ?_ rfl rfl⟩
      rw [exclusive_and, hmask, Bool.and_true]
    next =>
      obtain ⟨rfl, rfl⟩ := Prod.mk.inj (Option.some.inj h)
      exact ⟨trivial, Move.goOn _ _ _⟩

/-! ## Runs -/

variable [Fintype P]

/-- The word and the threads agree, and every thread is where it should be. -/
structure Inv (s : State P) : Prop where
  agree : ReadWrite Thread.shared Thread.exclusive (readers s.data) (hasBits s.data EXCLUSIVE)
    s.threads
  placed : ∀ p, (s.threads p).Placed

omit [Fintype P] in
/-- Only the mover has gone on. -/
theorem placed_update {threads : P → Thread} {p : P} {t : Thread}
    (hplaced : ∀ p, (threads p).Placed) (ht : t.Placed) (q : P) :
    (Function.update threads p t q).Placed := by
  by_cases hq : q = p
  · subst hq
    rw [Function.update_self]
    exact ht
  · rw [Function.update_of_ne hq]
    exact hplaced q

omit [DecidableEq P] in
theorem initial_inv : Inv (initial : State P) where
  agree := by
    have hreaders : readers 0 = 0 := by decide
    have hwriter : hasBits 0 EXCLUSIVE = false := by decide
    rw [initial, hreaders, hwriter]
    exact ReadWrite.free rfl rfl
  placed _ := trivial

theorem step_inv {s s' : State P} {e : Event P} (h : Inv s) (hok : Undisturbed s e)
    (hs : step s e = some s') : Inv s' := by
  cases e with
  | call p m =>
    rw [step] at hs
    split at hs
    next =>
      obtain ⟨t, ht, rfl⟩ := Option.map_eq_some_iff.mp hs
      obtain ⟨hplaced, hshared, hexclusive⟩ := call_placed ht
      exact ⟨h.agree.keep hshared hexclusive, placed_update h.placed hplaced⟩
    next => cases hs
  | atomic p spurious =>
    obtain ⟨⟨d', t'⟩, hr, rfl⟩ := Option.map_eq_some_iff.mp hs
    obtain ⟨hplaced, hmove⟩ :=
      atomic_move (h.placed p) (h.agree.marked p) (h.agree.shared_le p) hok hr
    refine ⟨?_, placed_update h.placed hplaced⟩
    have hagree := h.agree
    dsimp only
    cases hmove with
    | keep hreaders hwriter hshared hexclusive =>
      rw [hreaders, hwriter]
      exact hagree.keep hshared hexclusive
    | share hfree hreaders hwriter hshared hexclusive =>
      rw [hfree] at hagree
      rw [hreaders, hwriter]
      exact hagree.share hshared hexclusive
    | unshare hreaders hwriter hshared hexclusive =>
      rw [hreaders, hwriter]
      exact hagree.unshare hshared hexclusive
    | take hfree hnone hreaders hwriter hshared hexclusive =>
      rw [hfree, hnone] at hagree
      rw [hreaders, hwriter]
      exact hagree.take hshared hexclusive
    | release hheld hreaders hwriter hshared hexclusive =>
      rw [hreaders, hwriter]
      exact hagree.release hheld hshared hexclusive

theorem run_inv {s : State P} {es : List (Event P)} (h : Run step Undisturbed initial es s) :
    Inv s :=
  h.invariant initial_inv fun _ _ _ hs hok hstep => step_inv hs hok hstep

/-- What the mutex is for. -/
structure Excludes (s : State P) : Prop where
  alone : ∀ p q, (s.threads p).exclusive = true → q ≠ p →
    (s.threads q).exclusive = false ∧ (s.threads q).shared = 0
  counted : (∀ p, (s.threads p).place = .idle) →
    readers s.data = ∑ p, (s.threads p).shared

/-- **While no reader is added beside a writer or without room, nobody holds the lock beside a
writer, and the word has as many readers as shared locks are held.** -/
theorem lock_exclusion {s : State P} {es : List (Event P)}
    (h : Run step Undisturbed initial es s) : Excludes s where
  alone _ _ hp hne := (run_inv h).agree.excludes hp hne
  counted _ := (run_inv h).agree.count

/-- A writer and two readers, one after another. -/
theorem lock_exclusion_in_turn : ∃ s, Run step Undisturbed (initial : State Bool)
    [.call true .lock, .atomic true false, .atomic true false, .call false .try_lock_shared,
      .atomic false false, .call true .unlock, .atomic true false, .call false .lock_shared,
      .atomic false false, .atomic false false] s ∧ Excludes s := by
  obtain ⟨s, hrun, -⟩ := @Run.exists_of_execute _ _ step Undisturbed _ _ (initial : State Bool)
    (fun _ => true) (show (execute step Undisturbed initial
      [.call true .lock, .atomic true false, .atomic true false, .call false .try_lock_shared,
        .atomic false false, .call true .unlock, .atomic true false, .call false .lock_shared,
        .atomic false false, .atomic false false]).map (fun _ => true) = some true by
      decide +kernel)
  exact ⟨s, hrun, lock_exclusion hrun⟩

/-- **An add that is disturbed by a writer breaks the exclusion.** -/
theorem disturbed_add {s s' : State P} {p : P} {wait spurious : Bool} {value : Word} (h : Inv s)
    (hplace : (s.threads p).place = .sharedAdd wait value)
    (hwriter : hasBits s.data EXCLUSIVE = true) (hs : step s (.atomic p spurious) = some s') :
    ¬ Excludes s' := by
  intro hexcludes
  have hplaced := h.placed p
  rw [Thread.Placed, hplace] at hplaced
  obtain ⟨hvalue, hp⟩ := hplaced
  obtain ⟨q, hq⟩ := h.agree.held hwriter
  have hne : p ≠ q := by
    intro heq
    rw [heq, hq] at hp
    cases hp
  obtain ⟨⟨d', t'⟩, hr, rfl⟩ := Option.map_eq_some_iff.mp hs
  rw [Thread.atomic, hplace] at hr
  dsimp only at hr
  rw [if_neg (by rw [hvalue]; exact Bool.false_ne_true)] at hr
  obtain ⟨rfl, rfl⟩ := Prod.mk.inj (Option.some.inj hr)
  -- the writer still holds the lock, and the reader has one more
  have hother : ∀ t, (Function.update s.threads p t q).exclusive = true := by
    intro t
    rw [Function.update_of_ne hne.symm]
    exact hq
  have hnone := (hexcludes.alone q p (hother _) hne).2
  dsimp only at hnone
  rw [Function.update_self] at hnone
  cases hnone

/-- The reader has loaded the word, the writer takes the lock, and the reader adds itself. -/
theorem reader_beside_writer : ∃ s, Run step Always (initial : State Bool)
    [.call false .try_lock_shared, .atomic false false, .call true .try_lock, .atomic true false,
      .atomic true false, .atomic false false] s ∧
    ((s.threads true).exclusive = true ∧ (s.threads false).shared = 1) := by
  obtain ⟨s, hrun, hs⟩ := @Run.exists_of_execute _ _ step Always _ _ (initial : State Bool)
    (fun s => (s.threads true).exclusive && decide ((s.threads false).shared = 1))
    (show (execute step Always initial
      [.call false .try_lock_shared, .atomic false false, .call true .try_lock, .atomic true false,
        .atomic true false, .atomic false false]).map
        (fun s => (s.threads true).exclusive && decide ((s.threads false).shared = 1)) =
          some true by decide +kernel)
  rw [Bool.and_eq_true, decide_eq_true_eq] at hs
  exact ⟨s, hrun, hs⟩

end Haybarn.Utils.SharedMutex
