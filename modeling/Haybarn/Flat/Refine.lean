import Haybarn.Flat.Stubs

/-!
# The two copies of the ring protocol agree

`js-stubs.js` and `vgi-sab-ring.js` are compared call by call on one memory, without
concurrent steps. Below 2^31 a pointer and its shift are the same number in both, so
what can differ is the copy: `copyWithin` clamps where `set` throws. Hence **the stubs
refine the reference**: every call, and every session of calls, gives the same results
and the same memory as long as the reference does not throw.

A read of an empty ring is the one call where the results differ by design: the
reference waits, the stub gives `-2`. Neither has changed the memory.
-/

namespace Haybarn.Flat

open Haybarn.Lib Haybarn.Sab

/-! ## The calls of the reference -/

/-- The reference's terminal error, delivered through the engine's two pointers. -/
def Reference.deliver (codePtr detailPtr : UInt32) : Option (Int × Int) → Op Int
  | none => return 0
  | some (code, detail) => do
    .onlyIf (codePtr != 0) (store (codePtr.toNat / 4 : Nat) code)
    .onlyIf (detailPtr != 0) (store (detailPtr.toNat / 4 : Nat) detail)
    return 1

/-- The call as `vgi-sab-ring.js` answers it. -/
def Reference.call (fuel : Nat) : Call → Op Int
  | .open region => slotOpen region.toNat
  | .write region slot dataPtr n =>
    stubWrite fuel region.toNat slot.toInt dataPtr.toNat n.toInt
  | .writeEos region slot => do
    stubWriteEos region.toNat slot.toInt
    return 0
  | .read region slot dataPtr n =>
    stubReadWithTerminal region.toNat slot.toInt dataPtr.toNat n.toInt
  | .terminalError region slot codePtr detailPtr => do
    let error ← stubTerminalError region.toNat slot.toInt
    deliver codePtr detailPtr error
  | .release region slot => do
    slotRelease region.toNat slot.toInt
    return 0

/-- A read answer from memory `m`, with `-2` and the memory as it was for "blocks". -/
def orWouldBlock (m : Memory) : Except Stop Int × Memory → Except Stop Int × Memory
  | (.error .blocked, _) => (.ok (-2), m)
  | answer => answer

/-- What a stub call owes: the reference's answer, and where a reference read would
block, `-2` and the memory as it was. -/
def expected (fuel : Nat) (c : Call) (m : Memory) : Except Stop Int × Memory :=
  match c with
  | .read .. => orWouldBlock m ((Reference.call fuel c).run m)
  | _ => (Reference.call fuel c).run m

/-- One call after the other, up to the first that does not return. -/
def session (answer : Call → Memory → Except Stop Int × Memory) :
    List Call → Memory → List (Except Stop Int) × Memory
  | [], m => ([], m)
  | c :: cs, m =>
    match answer c m with
    | (.ok v, m') => (.ok v :: (session answer cs m').1, (session answer cs m').2)
    | (.error e, m') => ([.error e], m')

/-- The pointers a call passes. -/
def Call.pointers : Call → List UInt32
  | .open region => [region]
  | .write region _ dataPtr _ => [region, dataPtr]
  | .writeEos region _ => [region]
  | .read region _ dataPtr _ => [region, dataPtr]
  | .terminalError region _ codePtr detailPtr => [region, codePtr, detailPtr]
  | .release region _ => [region]

/-- All pointers of the call are below 2^31. -/
def Call.Low (c : Call) : Prop := ∀ p ∈ c.pointers, p.toNat < 2147483648

instance (c : Call) : Decidable c.Low := List.decidableBAll _ _

/-! ## Pointers below 2^31 -/

theorem signed_ptr {p : UInt32} (h : p.toNat < 2147483648) : signed.ptr p = p.toNat := by
  show p.toInt32.toInt = p.toNat
  have hbmod : p.toInt32.toInt = (p.toNat : Int).bmod 4294967296 := BitVec.toInt_eq_toNat_bmod _
  rw [hbmod, Int.bmod_def]
  split <;> omega

theorem signed_shr2_ptr {p : UInt32} (h : p.toNat < 2147483648) :
    signed.shr2 (signed.ptr p) = (p.toNat / 4 : Nat) := by
  rw [signed_ptr h]
  show (Num.int p.toNat).shr2 = _
  rw [Num.shr2_eq_ushr2 (by omega) (by omega), Num.ushr2_of_lt (by omega) (by omega)]
  omega

/-! ## Running the operations -/

variable {m : Memory} {i : Int} {v : Num}

theorem load_run (h : ValidLane m i) : (load i).run m = (.ok (laneAt m i), m) := by
  unfold Prog.run
  rw [load_valid h]

theorem load_run_throws (h : ¬ ValidLane m i) : (load i).run m = (.error .rangeError, m) := by
  unfold Prog.run
  rw [show load i m = _ from atLane_invalid h]

theorem wait_run (h : ValidLane m i) : (wait i).run m = (.ok (), m) := by
  unfold Prog.run
  rw [wait_valid h]

/-- Reading the header never throws and changes nothing. -/
theorem header_run (base : Int) : ∃ hdr, (Reference.header base).run m = (.ok hdr, m) :=
  ⟨_, rfl⟩

/-! ## The calls that are the same text -/

/-- Refinement here: the reference may throw. -/
abbrev Refined {α : Type} (x y : Op α) : Prop := Prog.Refines (· = Stop.rangeError) x y

variable {region : UInt32} {slot : Int}

theorem hdr_signed (hr : region.toNat < 2147483648) :
    Stubs.hdr signed (signed.ptr region) = Reference.header region.toNat := by
  rw [signed_ptr hr]
  rfl

theorem slotOpenFrom_signed (base : Int) (hdr : Header) (id : Int32) (left : Nat) :
    ∀ s, Stubs.slotOpenFrom signed base hdr id left s =
      Reference.slotOpenFrom base hdr id left s := by
  induction left with
  | zero =>
    intro s
    rfl
  | succ left ih =>
    intro s
    unfold Stubs.slotOpenFrom Reference.slotOpenFrom
    rw [ih]
    rfl

theorem slotOpen_signed (hr : region.toNat < 2147483648) :
    Stubs.slotOpen signed region = Reference.slotOpen region.toNat := by
  unfold Stubs.slotOpen Reference.slotOpen
  rw [hdr_signed hr, signed_ptr hr]
  simp only [slotOpenFrom_signed]
  rfl

theorem slotWriteEos_signed (hr : region.toNat < 2147483648) :
    Stubs.slotWriteEos signed region slot = Reference.stubWriteEos region.toNat slot := by
  unfold Stubs.slotWriteEos Reference.stubWriteEos
  rw [hdr_signed hr, signed_ptr hr]
  rfl

/-- Waking the waiters of a lane just stored to changes nothing. -/
theorem store_notify : (do store i v; notify i) = store i v := by
  funext m
  by_cases h : ValidLane m i
  · have h' : ValidLane (m.setLane i.toNat v.toInt32) i := h
    rw [Prog.bind_ok (store_valid h), notify_valid h', store_valid h]
    rfl
  · have hstore : store i v m = _ := atLane_invalid h
    rw [Prog.bind_error hstore, hstore]

theorem slotRelease_signed (hr : region.toNat < 2147483648) :
    Stubs.slotRelease signed region slot = Reference.slotRelease region.toNat slot := by
  unfold Stubs.slotRelease Reference.slotRelease
  rw [hdr_signed hr, signed_ptr hr]
  simp only [store_notify]
  rfl

/-- Delivering the error is the end of `vgi_wasm_slot_terminal_error`. -/
theorem slotTerminalError_signed {codePtr detailPtr : UInt32} (hr : region.toNat < 2147483648)
    (hc : codePtr.toNat < 2147483648) (hd : detailPtr.toNat < 2147483648) :
    Stubs.slotTerminalError signed region slot codePtr detailPtr = (do
      let error ← Reference.stubTerminalError region.toNat slot
      Reference.deliver codePtr detailPtr error) := by
  unfold Stubs.slotTerminalError Reference.stubTerminalError
  rw [hdr_signed hr, signed_shr2_ptr hc, signed_shr2_ptr hd, signed_ptr hr]
  -- `return none` and `return some _` meet `deliver`, branch by branch
  simp only [bind_assoc, pure_bind, apply_ite (· >>= Reference.deliver codePtr detailPtr)]
  rfl

/-! ## Writing -/

/-- The two write loops, round by round. -/
theorem ringWrite_refines (ctl : Int) (writeLane readLane : Lane) (data cap : Num) (src n : Int)
    (fuel : Nat) : ∀ off,
    Refined (Reference.ringWrite ctl writeLane readLane data cap src n fuel off)
      (Stubs.ringWrite ctl writeLane readLane data cap src n fuel off) := by
  induction fuel with
  | zero =>
    intro off
    exact .refl _
  | succ fuel ih =>
    intro off
    unfold Reference.ringWrite Stubs.ringWrite
    refine .ite (fun _ => ?_) fun _ => .refl _
    refine .bind_left _ fun w => .bind_left _ fun r => ?_
    refine .ite (fun _ => .refl _) fun _ => ?_
    refine .bind (setSubarray_refines _ _ _) fun _ => ?_
    refine .bind (.onlyIf (setSubarray_refines _ _ _)) fun _ => ?_
    exact .bind_left _ fun _ => .bind_left _ fun _ => ih _

theorem slotWrite_refines (fuel : Nat) {dataPtr : UInt32} (n : Int)
    (hr : region.toNat < 2147483648) (hp : dataPtr.toNat < 2147483648) :
    Refined (Reference.stubWrite fuel region.toNat slot dataPtr.toNat n)
      (Stubs.slotWrite signed fuel region slot dataPtr n) := by
  unfold Reference.stubWrite Stubs.slotWrite
  rw [hdr_signed hr, signed_ptr hr, signed_ptr hp]
  exact .bind_left _ fun hdr => ringWrite_refines _ _ _ _ _ _ _ _ _

/-! ## Reading -/

/-- What a stub read (`y`) owes a reference read (`x`) from `m`: the same result and
memory, or `-2` in unchanged memory where the reference waits; nothing where it
throws. -/
def ReadAgrees (x y : Op Int) (m : Memory) : Prop :=
  (x.run m).1 = .error .rangeError ∨
    (x.run m = (.error .blocked, m) ∧ y.run m = (.ok (-2), m)) ∨
    ((x.run m).1 ≠ .error .blocked ∧ y.run m = x.run m)

variable {ctl : Int} {writeLane readLane closedLane : Lane} {data cap : Num} {dst n : Int}

/-- The direction is closed for the claim in `STATE`. -/
def eosAt (m : Memory) (ctl : Int) (closedLane : Lane) : Bool :=
  laneAt m (at_ ctl closedLane) ≠ 0 ∧
    laneAt m (at_ ctl closedLane) = laneAt m (at_ ctl .state)

theorem closedFor_run
    (hs : laneAt m (at_ ctl closedLane) ≠ 0 → ValidLane m (at_ ctl .state)) :
    (Reference.closedFor ctl true (laneAt m (at_ ctl closedLane))).run m =
      (.ok (eosAt m ctl closedLane), m) := by
  unfold Reference.closedFor eosAt
  by_cases h0 : laneAt m (at_ ctl closedLane) = 0
  · rw [if_pos h0, Prog.run_pure, h0]
    simp
  · rw [if_neg h0, if_pos rfl, Prog.run_bind_ok (load_run (hs h0)), Prog.run_pure]
    simp only [ne_eq, h0, not_false_eq_true, true_and]

theorem closedFor_throws (h0 : laneAt m (at_ ctl closedLane) ≠ 0)
    (hs : ¬ ValidLane m (at_ ctl .state)) :
    (Reference.closedFor ctl true (laneAt m (at_ ctl closedLane))).run m =
      (.error .rangeError, m) := by
  unfold Reference.closedFor
  rw [if_neg h0, if_pos rfl, Prog.run_bind_error (load_run_throws hs)]

theorem isEos_run (hc : ValidLane m (at_ ctl closedLane))
    (hs : laneAt m (at_ ctl closedLane) ≠ 0 → ValidLane m (at_ ctl .state)) :
    (Stubs.isEos ctl closedLane).run m = (.ok (eosAt m ctl closedLane), m) := by
  unfold Stubs.isEos eosAt
  rw [Prog.run_bind_ok (load_run hc)]
  by_cases h0 : laneAt m (at_ ctl closedLane) = 0
  · rw [if_pos h0, Prog.run_pure, h0]
    simp
  · rw [if_neg h0, Prog.run_bind_ok (load_run (hs h0)), Prog.run_pure]
    simp only [ne_eq, h0, not_false_eq_true, true_and]

/-- A read of an empty ring: the stub looks twice and finds the same. -/
theorem ringRead_empty (hw : ValidLane m (at_ ctl writeLane))
    (hr : ValidLane m (at_ ctl readLane))
    (h : laneAt m (at_ ctl writeLane) - laneAt m (at_ ctl readLane) = 0) :
    ReadAgrees (Reference.ringRead ctl writeLane readLane closedLane data cap dst n true)
      (Stubs.ringRead ctl writeLane readLane closedLane data cap dst n) m := by
  unfold ReadAgrees Reference.ringRead Stubs.ringRead
  rw [Prog.run_bind_ok (load_run hw), Prog.run_bind_ok (load_run hr), if_pos h,
    Prog.run_bind_ok (load_run hw), Prog.run_bind_ok (load_run hr), if_pos h]
  by_cases hc : ValidLane m (at_ ctl closedLane)
  · rw [Prog.run_bind_ok (load_run hc)]
    by_cases hs : laneAt m (at_ ctl closedLane) ≠ 0 → ValidLane m (at_ ctl .state)
    · rw [Prog.run_bind_ok (closedFor_run hs), Prog.run_bind_ok (isEos_run hc hs)]
      by_cases he : eosAt m ctl closedLane = true
      · rw [if_pos he, if_pos he]
        exact .inr (.inr ⟨by simp, rfl⟩)
      · -- nothing has changed when the stub looks again
        rw [if_neg he, if_neg he, Prog.run_bind_ok (wait_run hw), Prog.run_bind_ok (wait_run hw),
          Prog.run_bind_ok (load_run hw), if_pos h, Prog.run_bind_ok (isEos_run hc hs),
          if_neg he]
        exact .inr (.inl ⟨rfl, rfl⟩)
    · obtain ⟨h0, hs⟩ := Classical.not_imp.mp hs
      rw [Prog.run_bind_error (closedFor_throws h0 hs)]
      exact .inl rfl
  · rw [Prog.run_bind_error (load_run_throws hc)]
    exact .inl rfl

/-- A program that waits for nobody. -/
def NeverBlocks {α : Type} (x : Op α) : Prop := ∀ m, (x.run m).1 ≠ .error .blocked

namespace NeverBlocks

variable {α β : Type} {x : Op α} {f : α → Op β}

theorem pure (a : α) : NeverBlocks (Pure.pure a : Op α) :=
  fun _ h => by cases h

theorem bind (hx : NeverBlocks x) (hf : ∀ a, NeverBlocks (f a)) : NeverBlocks (x >>= f) := by
  intro m
  rcases h : x.run m with ⟨e | a, m'⟩
  · rw [Prog.run_bind_error h]
    intro he
    exact hx m (by rw [h]; cases he; rfl)
  · rw [Prog.run_bind_ok h]
    exact hf a m'

theorem ite {p : Prop} [Decidable p] {y : Op α} (hx : NeverBlocks x) (hy : NeverBlocks y) :
    NeverBlocks (if p then x else y) := by
  by_cases h : p
  · rw [if_pos h]
    exact hx
  · rw [if_neg h]
    exact hy

theorem onlyIf {b : Bool} {x : Op Unit} (hx : NeverBlocks x) : NeverBlocks (Prog.onlyIf b x) :=
  ite hx (pure ())

theorem atLane (i : Int) (f : Memory → α × Memory) : NeverBlocks (Flat.atLane i f) := by
  intro m
  unfold Prog.run
  by_cases h : ValidLane m i
  · rw [atLane_valid h]
    exact fun he => by cases he
  · rw [atLane_invalid h]
    exact fun he => by cases he

theorem peek (i : Int) : NeverBlocks (Flat.peek i) := fun m h => by cases h

theorem notify (i : Int) : NeverBlocks (Flat.notify i) := by
  intro m
  show (if ValidLane m i then _ else _ : Except Stop Unit) ≠ _
  by_cases h : ValidLane m i
  · rw [if_pos h]
    exact fun he => by cases he
  · rw [if_neg h]
    exact fun he => by cases he

theorem copyWithin (target start stop : Num) : NeverBlocks (Flat.copyWithin target start stop) :=
  fun m h => by cases h

end NeverBlocks

/-- The copy out of the ring waits for nobody. -/
theorem ringTake_neverBlocks (avail r : Int) :
    NeverBlocks (Stubs.ringTake ctl readLane data cap dst n avail r) := by
  unfold Stubs.ringTake
  refine .bind (.copyWithin _ _ _) fun _ => .bind (.onlyIf (.copyWithin _ _ _)) fun _ => ?_
  exact .bind (.atLane _ _) fun _ => .bind (.notify _) fun _ => .pure _

theorem ringTake_refines (avail r : Int) :
    Refined (Reference.ringTake ctl readLane data cap dst n avail r)
      (Stubs.ringTake ctl readLane data cap dst n avail r) := by
  unfold Reference.ringTake Stubs.ringTake
  refine .bind (setSubarray_refines _ _ _) fun _ => ?_
  exact .bind (.onlyIf (setSubarray_refines _ _ _)) fun _ => .refl _

/-- A read of a ring that is not empty: the same copy. -/
theorem ringRead_take (hw : ValidLane m (at_ ctl writeLane)) (hr : ValidLane m (at_ ctl readLane))
    (h : laneAt m (at_ ctl writeLane) - laneAt m (at_ ctl readLane) ≠ 0) :
    ReadAgrees (Reference.ringRead ctl writeLane readLane closedLane data cap dst n true)
      (Stubs.ringRead ctl writeLane readLane closedLane data cap dst n) m := by
  unfold ReadAgrees Reference.ringRead Stubs.ringRead
  rw [Prog.run_bind_ok (load_run hw), Prog.run_bind_ok (load_run hr), if_neg h,
    Prog.run_bind_ok (load_run hw), Prog.run_bind_ok (load_run hr), if_neg h]
  by_cases ht : ((Reference.ringTake ctl readLane data cap dst n
      (laneAt m (at_ ctl writeLane) - laneAt m (at_ ctl readLane))
      (laneAt m (at_ ctl readLane))).run m).1 = .error .rangeError
  · exact .inl ht
  · have heq : (Stubs.ringTake ctl readLane data cap dst n _ _).run m = _ :=
      ringTake_refines _ _ m fun e he hexc => ht (hexc ▸ he)
    right
    right
    refine ⟨?_, heq⟩
    rw [← heq]
    exact ringTake_neverBlocks _ _ m

/-- **The two reads of a ring.** -/
theorem ringRead_agrees (m : Memory) :
    ReadAgrees (Reference.ringRead ctl writeLane readLane closedLane data cap dst n true)
      (Stubs.ringRead ctl writeLane readLane closedLane data cap dst n) m := by
  by_cases hw : ValidLane m (at_ ctl writeLane)
  · by_cases hr : ValidLane m (at_ ctl readLane)
    · by_cases h : laneAt m (at_ ctl writeLane) - laneAt m (at_ ctl readLane) = 0
      · exact ringRead_empty hw hr h
      · exact ringRead_take hw hr h
    · left
      unfold Reference.ringRead
      rw [Prog.run_bind_ok (load_run hw), Prog.run_bind_error (load_run_throws hr)]
  · left
    unfold Reference.ringRead
    rw [Prog.run_bind_error (load_run_throws hw)]

/-! ## The terminal error after a read -/

/-- The last test of both: the error is set for the claim in `STATE`. -/
theorem terminalClaim_agrees {sb : Int} (hs : ValidLane m (at_ sb .state)) :
    let x : Op (Option (Int × Int)) := do
      let terminalClaim ← load (at_ sb .terminalClaim)
      if terminalClaim ≠ laneAt m (at_ sb .state) then return none
      let code ← load (at_ sb .terminalCode)
      let detail ← load (at_ sb .terminalDetail)
      let claim' ← load (at_ sb .state)
      if claim' ≠ laneAt m (at_ sb .state) then return none
      let terminalClaim' ← load (at_ sb .terminalClaim)
      if terminalClaim' ≠ laneAt m (at_ sb .state) then return none
      return some (code, detail)
    let y : Op Bool := do
      let terminalClaim ← load (at_ sb .terminalClaim)
      let state' ← load (at_ sb .state)
      return terminalClaim = state'
    (x.run m).1 = .error .rangeError ∨
      ∃ error, x.run m = (.ok error, m) ∧ y.run m = (.ok error.isSome, m) := by
  intro x y
  by_cases ht : ValidLane m (at_ sb .terminalClaim)
  · have hy : y.run m =
        (.ok (decide (laneAt m (at_ sb .terminalClaim) = laneAt m (at_ sb .state))), m) := by
      rw [Prog.run_bind_ok (load_run ht), Prog.run_bind_ok (load_run hs), Prog.run_pure]
    rw [hy, Prog.run_bind_ok (load_run ht)]
    by_cases he : laneAt m (at_ sb .terminalClaim) = laneAt m (at_ sb .state)
    · rw [if_neg (not_not_intro he)]
      by_cases hc : ValidLane m (at_ sb .terminalCode)
      · by_cases hd : ValidLane m (at_ sb .terminalDetail)
        · right
          refine ⟨some (laneAt m (at_ sb .terminalCode), laneAt m (at_ sb .terminalDetail)), ?_,
            by simp [he]⟩
          rw [Prog.run_bind_ok (load_run hc), Prog.run_bind_ok (load_run hd),
            Prog.run_bind_ok (load_run hs), if_neg (not_not_intro rfl),
            Prog.run_bind_ok (load_run ht), if_neg (not_not_intro he)]
          rfl
        · rw [Prog.run_bind_ok (load_run hc), Prog.run_bind_error (load_run_throws hd)]
          exact .inl rfl
      · rw [Prog.run_bind_error (load_run_throws hc)]
        exact .inl rfl
    · rw [if_pos he]
      exact .inr ⟨none, rfl, by simp [he]⟩
  · rw [Prog.run_bind_error (load_run_throws ht)]
    exact .inl rfl

/-- `stubTerminalError` and the condition in `vgi_wasm_slot_read` find the same. -/
theorem terminal_agrees (base slot : Int) (m : Memory) (hdr : Header)
    (hhdr : (Reference.header base).run m = (.ok hdr, m)) :
    ((Reference.stubTerminalError base slot).run m).1 = .error .rangeError ∨
      ∃ error, (Reference.stubTerminalError base slot).run m = (.ok error, m) ∧
        (Stubs.terminalSet signed base (Reference.slotBase base hdr slot).shr2).run m =
          (.ok error.isSome, m) := by
  unfold Reference.stubTerminalError Stubs.terminalSet
  rw [Prog.run_bind_ok hhdr]
  by_cases hf : ValidLane m (Num.shr2 base + hdrFeatures)
  · rw [show signed.shr2 base = Num.shr2 base from rfl, Prog.run_bind_ok (load_run hf),
      Prog.run_bind_ok (load_run hf)]
    by_cases hl : lacksTerminalError (laneAt m (Num.shr2 base + hdrFeatures))
    · rw [if_pos hl, if_pos hl]
      exact .inr ⟨none, rfl, rfl⟩
    rw [if_neg hl, if_neg hl]
    by_cases hs : ValidLane m (at_ (Reference.slotBase base hdr slot).shr2 .state)
    · rw [Prog.run_bind_ok (load_run hs), Prog.run_bind_ok (load_run hs)]
      by_cases h0 : laneAt m (at_ (Reference.slotBase base hdr slot).shr2 .state) = 0
      · rw [if_pos h0, if_pos h0]
        exact .inr ⟨none, rfl, rfl⟩
      rw [if_neg h0, if_neg h0]
      exact terminalClaim_agrees hs
    · rw [Prog.run_bind_error (load_run_throws hs)]
      exact .inl rfl
  · rw [Prog.run_bind_error (load_run_throws hf)]
    exact .inl rfl

/-! ## A read that gives 0 -/

/-- A capacity that is not negative. -/
def NonnegCap (cap : Num) : Prop := ∀ c, cap = .int c → 0 ≤ c

theorem first_of_zero (hcap : NonnegCap cap) (r : Int) :
    Num.min (0 : Int) (cap - (r : Num) % cap) = .nan ∨
      Num.min (0 : Int) (cap - (r : Num) % cap) = (0 : Int) := by
  cases cap with
  | nan => exact .inl rfl
  | int c =>
    have hc : 0 ≤ c := hcap c rfl
    by_cases h0 : c = 0
    · left
      subst h0
      rfl
    · right
      have hlt : r.tmod c < c := Int.tmod_lt_of_pos r (by omega)
      rw [Num.int_mod h0, Num.int_sub, Num.int_min]
      congr 1
      omega

/-- Copying nothing. -/
theorem setSubarray_none {start stop : Num} (offset : Num)
    (h : relative m.size stop - relative m.size start = 0) :
    ((setSubarray start stop offset).run m).1 = .error .rangeError ∨
      (setSubarray start stop offset).run m = (.ok (), m) := by
  unfold setSubarray copyBytes Prog.run
  dsimp only
  rw [h]
  by_cases ht : offset.toInteger < 0 ∨ (m.size : Int) < offset.toInteger + (0 : Nat)
  · rw [if_pos ht]
    exact .inl rfl
  · rw [if_neg ht, Memory.copy_zero]
    exact .inr rfl

/-- Storing what a lane holds. -/
theorem store_same (h : ValidLane m i) : (store i (laneAt m i)).run m = (.ok (), m) := by
  have hv : Num.toInt32 (laneAt m i) = m.lane i.toNat := Int32.ofInt_toInt _
  unfold Prog.run
  rw [store_valid h, hv, Memory.setLane_lane]

theorem ringTake_zero (data : Num) (dst : Int) {avail : Int} (hcap : NonnegCap cap)
    (hk : min avail n = 0) (hr : ValidLane m (at_ ctl readLane)) :
    ((Reference.ringTake ctl readLane data cap dst n avail
      (laneAt m (at_ ctl readLane))).run m).1 = .error .rangeError ∨
    (Reference.ringTake ctl readLane data cap dst n avail
      (laneAt m (at_ ctl readLane))).run m = (.ok 0, m) := by
  unfold Reference.ringTake
  simp only [hk, Int.add_zero]
  have hnone : relative m.size (data + (laneAt m (at_ ctl readLane) : Num) % cap +
      Num.min (0 : Int) (cap - (laneAt m (at_ ctl readLane) : Num) % cap)) -
      relative m.size (data + (laneAt m (at_ ctl readLane) : Num) % cap) = 0 := by
    rcases first_of_zero hcap (laneAt m (at_ ctl readLane)) with h | h
    · rw [h, Num.add_nan]
      exact Nat.zero_sub _
    · rw [h, Num.add_zero]
      exact Nat.sub_self _
  have hlt : (Num.min (0 : Int) (cap - (laneAt m (at_ ctl readLane) : Num) % cap)).lt (0 : Int)
      = false := by
    rcases first_of_zero hcap (laneAt m (at_ ctl readLane)) with h | h <;> rw [h] <;> rfl
  rcases setSubarray_none dst hnone with hthrow | hset
  · exact .inl (Prog.run_bind_throws hthrow)
  · right
    rw [Prog.run_bind_ok hset, hlt, Prog.run_bind_ok Prog.run_onlyIf_false,
      Prog.run_bind_ok (store_same hr)]
    unfold Prog.run
    rw [Prog.bind_ok (notify_valid hr)]
    rfl

/-- What the copy returns is the number of bytes it took. -/
theorem ringTake_result {avail r v : Int} {m' : Memory}
    (h : (Reference.ringTake ctl readLane data cap dst n avail r).run m = (.ok v, m')) :
    v = min avail n := by
  obtain ⟨_, _, -, h⟩ := Prog.run_bind_eq_ok h
  obtain ⟨_, _, -, h⟩ := Prog.run_bind_eq_ok h
  obtain ⟨_, _, -, h⟩ := Prog.run_bind_eq_ok h
  obtain ⟨_, _, -, h⟩ := Prog.run_bind_eq_ok h
  cases h
  rfl

/-- **A read that gives 0 has changed nothing**: it met the end of the stream, or it
was asked for nothing. -/
theorem ringRead_zero {m' : Memory} (hcap : NonnegCap cap)
    (h : (Reference.ringRead ctl writeLane readLane closedLane data cap dst n true).run m =
      (.ok 0, m')) : m' = m := by
  unfold Reference.ringRead at h
  by_cases hw : ValidLane m (at_ ctl writeLane)
  · by_cases hr : ValidLane m (at_ ctl readLane)
    · rw [Prog.run_bind_ok (load_run hw), Prog.run_bind_ok (load_run hr)] at h
      by_cases h0 : laneAt m (at_ ctl writeLane) - laneAt m (at_ ctl readLane) = 0
      · rw [if_pos h0] at h
        by_cases hc : ValidLane m (at_ ctl closedLane)
        · rw [Prog.run_bind_ok (load_run hc)] at h
          by_cases hs : laneAt m (at_ ctl closedLane) ≠ 0 → ValidLane m (at_ ctl .state)
          · rw [Prog.run_bind_ok (closedFor_run hs)] at h
            by_cases he : eosAt m ctl closedLane = true
            · rw [if_pos he] at h
              cases h
              rfl
            · rw [if_neg he, Prog.run_bind_ok (wait_run hw)] at h
              cases h
          · obtain ⟨hne, hs⟩ := Classical.not_imp.mp hs
            rw [Prog.run_bind_error (closedFor_throws hne hs)] at h
            cases h
        · rw [Prog.run_bind_error (load_run_throws hc)] at h
          cases h
      · rw [if_neg h0] at h
        have hzero := ringTake_zero data dst hcap (ringTake_result h).symm hr
        rcases hzero with hthrow | hsame
        · rw [h] at hthrow
          cases hthrow
        · rw [h] at hsame
          cases hsame
          rfl
    · rw [Prog.run_bind_ok (load_run hw), Prog.run_bind_error (load_run_throws hr)] at h
      cases h
  · rw [Prog.run_bind_error (load_run_throws hw)] at h
    cases h

/-- The capacity in the header at `base` is not negative. -/
def CapNonneg (base : Int) (m : Memory) : Prop :=
  ValidLane m (Num.shr2 base + hdrRingCap) → 0 ≤ laneAt m (Num.shr2 base + hdrRingCap)

instance (base : Int) (m : Memory) : Decidable (CapNonneg base m) :=
  inferInstanceAs (Decidable (_ → _))

theorem header_nonnegCap {base : Int} {hdr : Header} (h : CapNonneg base m)
    (hhdr : (Reference.header base).run m = (.ok hdr, m)) : NonnegCap hdr.ringCap := by
  have hcap : hdr.ringCap = if ValidLane m (Num.shr2 base + hdrRingCap) then
      .int (laneAt m (Num.shr2 base + hdrRingCap)) else .nan := by
    cases hhdr
    rfl
  intro c hc
  by_cases hv : ValidLane m (Num.shr2 base + hdrRingCap)
  · rw [hcap, if_pos hv] at hc
    cases hc
    exact h hv
  · rw [hcap, if_neg hv] at hc
    cases hc

/-- **The reads with their terminal error.** -/
theorem slotRead_agrees {dataPtr : UInt32} (hr : region.toNat < 2147483648)
    (hp : dataPtr.toNat < 2147483648) (hcap : CapNonneg region.toNat m) :
    ReadAgrees (Reference.stubReadWithTerminal region.toNat slot dataPtr.toNat n)
      (Stubs.slotRead signed region slot dataPtr n) m := by
  obtain ⟨hdr, hhdr⟩ := header_run (m := m) region.toNat
  let sb := Reference.slotBase region.toNat hdr slot
  let x := Reference.ringRead sb.shr2 .w2cWrite .w2cRead .w2cClosed
    (sb + slotControlBytes + hdr.ringCap) hdr.ringCap dataPtr.toNat n true
  let y := Stubs.ringRead sb.shr2 .w2cWrite .w2cRead .w2cClosed
    (sb + slotControlBytes + hdr.ringCap) hdr.ringCap dataPtr.toNat n
  have hring : ReadAgrees x y m := ringRead_agrees m
  let after : Int → Op Int := fun result =>
    if result = 0 then do
      let terminal ← Stubs.terminalSet signed region.toNat sb.shr2
      return if terminal then -3 else result
    else return result
  have hstub : (Stubs.slotRead signed region slot dataPtr n).run m = (y >>= after).run m := by
    unfold Stubs.slotRead
    rw [hdr_signed hr, signed_ptr hr, signed_ptr hp, Prog.run_bind_ok hhdr]
    rfl
  unfold Reference.stubReadWithTerminal Reference.stubRead
  rw [bind_assoc]
  unfold ReadAgrees
  rw [Prog.run_bind_ok hhdr, hstub]
  rcases hring with hthrow | ⟨hblocked, hminus⟩ | ⟨hnot, hsame⟩
  · exact .inl (Prog.run_bind_throws hthrow)
  · right
    left
    refine ⟨Prog.run_bind_error hblocked, ?_⟩
    exact Prog.run_bind_ok hminus
  · rcases hx : x.run m with ⟨e | v, m'⟩
    · rw [hx] at hsame hnot
      right
      right
      rw [Prog.run_bind_error hx]
      exact ⟨fun h => hnot (by cases h; rfl), Prog.run_bind_error hsame⟩
    · rw [hx] at hsame
      rw [Prog.run_bind_ok hx, Prog.run_bind_ok hsame]
      by_cases hv : v = 0
      · subst hv
        have hm : m' = m := ringRead_zero (header_nonnegCap hcap hhdr) hx
        subst hm
        rw [if_pos rfl, show after 0 = _ from if_pos rfl]
        rcases terminal_agrees region.toNat slot m' hdr hhdr with hthrow | ⟨error, he, hset⟩
        · exact .inl (Prog.run_bind_throws hthrow)
        · right
          right
          rw [Prog.run_bind_ok he, Prog.run_bind_ok hset]
          exact ⟨fun h => (by cases h), rfl⟩
      · rw [if_neg hv, show after v = _ from if_neg hv]
        exact .inr (.inr ⟨fun h => (by cases h), rfl⟩)

/-! ## Calls and sessions -/

/-- The capacity of the ring a call reads is not negative. -/
def Call.CapOk (m : Memory) : Call → Prop
  | .read region _ _ _ => CapNonneg region.toNat m
  | _ => True

/-- A call the two files answer alike: the reference does not throw, and the capacity
of the ring it reads is not negative. -/
structure Regular (fuel : Nat) (c : Call) (m : Memory) : Prop where
  returns : (expected fuel c m).1 ≠ .error .rangeError
  cap : c.CapOk m

/-- Every call of the session is regular where it is made. -/
def RegularSession (fuel : Nat) : List Call → Memory → Prop
  | [], _ => True
  | c :: cs, m => Regular fuel c m ∧
    match expected fuel c m with
    | (.ok _, m') => RegularSession fuel cs m'
    | _ => True

/-- A refinement, used where the reference does not throw. -/
theorem Refined.run_eq {x y : Op Int} (h : Refined x y)
    (hx : (x.run m).1 ≠ .error .rangeError) : y.run m = x.run m :=
  h m fun _ he hexc => hx (hexc ▸ he)

theorem orWouldBlock_of_ne {answer : Except Stop Int × Memory}
    (h : answer.1 ≠ .error .blocked) : orWouldBlock m answer = answer := by
  rcases answer with ⟨e | v, m'⟩
  · cases e with
    | blocked => exact absurd rfl h
    | rangeError => rfl
    | outOfFuel => rfl
  · rfl

/-- **One call.** -/
theorem call_refines (fuel : Nat) (c : Call) (hlow : c.Low) (hreg : Regular fuel c m) :
    (Stubs.call signed fuel c).run m = expected fuel c m := by
  have hthrow := hreg.returns
  cases c with
  | «open» region =>
    have hr := hlow region (by simp [Call.pointers])
    show (Stubs.slotOpen signed region).run m = (Reference.slotOpen region.toNat).run m
    rw [slotOpen_signed hr]
  | write region slot dataPtr n =>
    have hr := hlow region (by simp [Call.pointers])
    have hp := hlow dataPtr (by simp [Call.pointers])
    exact (slotWrite_refines fuel n.toInt hr hp).run_eq hthrow
  | writeEos region slot =>
    have hr := hlow region (by simp [Call.pointers])
    show (Stubs.slotWriteEos signed region slot.toInt >>= fun _ => pure 0).run m = _
    rw [slotWriteEos_signed hr]
    rfl
  | read region slot dataPtr n =>
    have hr := hlow region (by simp [Call.pointers])
    have hp := hlow dataPtr (by simp [Call.pointers])
    have hcap : CapNonneg region.toNat m := hreg.cap
    show (Stubs.slotRead signed region slot.toInt dataPtr n.toInt).run m = _
    have hexp : expected fuel (.read region slot dataPtr n) m = orWouldBlock m
        ((Reference.stubReadWithTerminal region.toNat slot.toInt dataPtr.toNat n.toInt).run m) :=
      rfl
    rw [hexp] at hthrow ⊢
    rcases slotRead_agrees hr hp hcap with hx | ⟨hx, hy⟩ | ⟨hx, hy⟩
    · rw [orWouldBlock_of_ne (by rw [hx]; exact fun h => (by cases h))] at hthrow
      exact absurd hx hthrow
    · rw [hx, hy]
      rfl
    · rw [hy, orWouldBlock_of_ne hx]
  | terminalError region slot codePtr detailPtr =>
    have hr := hlow region (by simp [Call.pointers])
    have hc := hlow codePtr (by simp [Call.pointers])
    have hd := hlow detailPtr (by simp [Call.pointers])
    show (Stubs.slotTerminalError signed region slot.toInt codePtr detailPtr).run m = _
    rw [slotTerminalError_signed hr hc hd]
    rfl
  | release region slot =>
    have hr := hlow region (by simp [Call.pointers])
    show (Stubs.slotRelease signed region slot.toInt >>= fun _ => pure 0).run m = _
    rw [slotRelease_signed hr]
    rfl

/-- **The stubs refine the reference**, over every session of calls from every memory. -/
theorem session_refines (fuel : Nat) (cs : List Call) : ∀ m : Memory, (∀ c ∈ cs, c.Low) →
    RegularSession fuel cs m →
    session (fun c => (Stubs.call signed fuel c).run) cs m = session (expected fuel) cs m := by
  induction cs with
  | nil =>
    intro m _ _
    rfl
  | cons c cs ih =>
    intro m hlow hreg
    obtain ⟨hc, hrest⟩ := hreg
    have hcall := call_refines fuel c (hlow c (List.mem_cons_self ..)) hc
    unfold session
    rw [hcall]
    rcases h : expected fuel c m with ⟨e | v, m'⟩
    · rfl
    · rw [h] at hrest
      have htail := ih m' (fun d hd => hlow d (List.mem_cons_of_mem _ hd)) hrest
      show (_ :: (session _ cs m').1, (session _ cs m').2) = _
      rw [htail]

/-! ## A session, and where the two copies differ -/

instance (c : Call) (m : Memory) : Decidable (c.CapOk m) :=
  match c with
  | .open _ => isTrue trivial
  | .write .. => isTrue trivial
  | .writeEos .. => isTrue trivial
  | .read region _ _ _ => inferInstanceAs (Decidable (CapNonneg region.toNat m))
  | .terminalError .. => isTrue trivial
  | .release .. => isTrue trivial

instance (fuel : Nat) (c : Call) (m : Memory) : Decidable (Regular fuel c m) :=
  decidable_of_iff ((expected fuel c m).1 ≠ .error .rangeError ∧ c.CapOk m)
    ⟨fun h => ⟨h.1, h.2⟩, fun h => ⟨h.returns, h.cap⟩⟩

instance regularSessionDecidable (fuel : Nat) :
    (cs : List Call) → (m : Memory) → Decidable (RegularSession fuel cs m)
  | [], _ => isTrue trivial
  | c :: cs, m =>
    match h : expected fuel c m with
    | (.ok _, m') =>
      have := regularSessionDecidable fuel cs m'
      decidable_of_iff (Regular fuel c m ∧ RegularSession fuel cs m') (by
        rw [RegularSession, h])
    | (.error _, _) => decidable_of_iff (Regular fuel c m) (by
        rw [RegularSession, h, and_true])

/-- A channel at address 0: one slot with rings of `cap` bytes, otherwise zeros. -/
def oneSlot (cap : Int32) : Memory :=
  ((((({ size := 4096, byte := fun _ => 0 } : Memory).setLane 2 1).setLane 3 cap).setLane 4
    2112).setLane 5 64).setLane 6 1

/-- A session with a wrapped write, an empty read, a close, an error query and a release. -/
def shortSession : List Call :=
  [.open 0, .write 0 0 512 3, .read 0 0 600 5, .writeEos 0 0, .terminalError 0 0 700 704,
    .release 0 0]

theorem session_refines_short :
    session (fun c => (Stubs.call signed 3 c).run) shortSession (oneSlot 8) =
      session (expected 3) shortSession (oneSlot 8) :=
  session_refines 3 shortSession (oneSlot 8) (by decide +kernel) (by decide +kernel)

/-- With positions that no channel has, `set` throws where `copyWithin` clamps: the
stub reports the byte as written, and has put it elsewhere. -/
theorem session_differs :
    ¬ ∀ (fuel : Nat) (cs : List Call) (m : Memory), (∀ c ∈ cs, c.Low) →
      session (fun c => (Stubs.call signed fuel c).run) cs m = session (expected fuel) cs m := by
  intro h
  have hwrite := h 3 [.write 0 0 3000 1] (((oneSlot 1000).setLane 17 (-200)).setLane 18 (-200))
    (by decide +kernel)
  have hresult := congrArg Prod.fst hwrite
  revert hresult
  decide +kernel

end Haybarn.Flat
