import Haybarn.Io.ReadAhead

/-!
# Reads that fail behind the read-ahead buffer

`ReadAheadBuffer::Read` (lib/include/duckdb/web/io/readahead_buffer.h) changes a head before it
calls `read_fn`, and an exception of `read_fn` finds the head as it is then. A head that is reset
has no bytes by then, and claims none. A head that is extended has the size of the range that is
about to be read, at the offset of the range before it: after an exception it claims bytes that
have never been read.

Mirroring notes:
- The read that throws has put no byte into the buffer. `leftover` is what the memory of the
  buffer holds behind the bytes that are known to be there: what an allocation has left there, or
  an earlier and longer range of the same head.
- An exception comes before the head is moved to the end of the list.
-/

namespace Haybarn.Io

open Haybarn.Lib

variable (w : Nat)

/-- A read at the end of a head throws: the head is faster and its buffer is allocated. -/
def accelerateThrows (head : ReadHead) (leftover : Nat → UInt8) : ReadHead :=
  let head := { head with
    speed := max (min (head.speed * readaheadAcceleration % 2 ^ w) readaheadMaximum) readaheadBase }
  let head := allocate head head.speed
  { head with buffer := (List.range head.bufferSize).map fun i =>
      (head.buffer[i]?).getD (leftover i) }

/-- A read for which a head has been reset throws. -/
def coldReadThrows (fileId : FileId) (n : Nat) : List ReadHead → List ReadHead
  | [] => []
  | head :: rest => { head with fileId, speed := n % 2 ^ w, bufferSize := 0 } :: rest

/-- Where a read ends: at a head that has its bytes, at one that is to be extended, or at none. -/
inductive Outcome
  | served
  | extends
  | cold
  deriving DecidableEq, Repr

/-- What the loop over the heads comes to. -/
def outcome (fileId : FileId) (offset : Nat) : List ReadHead → Outcome
  | [] => .cold
  | head :: rest =>
    let fin := (head.offset + head.bufferSize) % 2 ^ 64
    if head.fileId = fileId ∧ head.offset ≤ offset ∧ offset ≤ fin then
      if offset < fin then .served else .extends
    else outcome fileId offset rest

/-- The loop over the heads, up to the one that is to be extended. -/
def extendThrows (fileId : FileId) (offset : Nat) (leftover : Nat → UInt8) :
    List ReadHead → List ReadHead
  | [] => []
  | head :: rest =>
    let fin := (head.offset + head.bufferSize) % 2 ^ 64
    if head.fileId = fileId ∧ head.offset ≤ offset ∧ offset ≤ fin then
      accelerateThrows w head leftover :: rest
    else head :: extendThrows fileId offset leftover rest

/-- `ReadAheadBuffer::Read`, when `read_fn` throws; it does not if it is not called. -/
def ReadAheadBuffer.readThrows (s : ReadAheadBuffer) (fileId : FileId) (n offset : Nat)
    (leftover : Nat → UInt8) : Option ReadAheadBuffer :=
  let s := s.applyInvalidations
  match outcome fileId offset s.readHeads with
  | .served => none
  | .extends => some { s with readHeads := extendThrows w fileId offset leftover s.readHeads }
  | .cold => some { s with readHeads := coldReadThrows w fileId n s.readHeads }

/-! ## Runs in which reads fail -/

/-- What happens: a call that returns, or a read that throws. -/
inductive FallibleEvent
  | returns (ev : Event)
  | readThrows (fileId : BitVec 32) (n offset : Nat) (leftover : Nat → UInt8)

def World.stepFallible (readFn : ReadFn) (w : Nat) (s : World) : FallibleEvent → Option World
  | .returns ev => s.step readFn w ev
  | .readThrows fileId n offset leftover =>
    if fileId ≠ 0 ∧ n < 2 ^ w ∧ offset < 2 ^ 64 then
      (s.buffer.readThrows w (headId fileId) n offset leftover).map fun buffer => { s with buffer }
    else none

/-- The read that throws is not to extend a head. -/
def ThrowsCold (s : World) : FallibleEvent → Prop
  | .returns _ => True
  | .readThrows fileId _ offset _ =>
    outcome (headId fileId) offset s.buffer.applyInvalidations.readHeads ≠ .extends

instance (s : World) : (ev : FallibleEvent) → Decidable (ThrowsCold s ev)
  | .returns _ => inferInstanceAs (Decidable True)
  | .readThrows .. => inferInstanceAs (Decidable (_ ≠ _))

/-! ## Heads without bytes -/

/-- What a head claims is in the file, and there are no bytes that it claims wrongly. -/
def Sound (contents : List UInt8) (head : ReadHead) : Prop :=
  head.bufferSize = 0 ∨ Holds contents head

section

variable {readFn : ReadFn} {w : Nat} {contents : List UInt8} {n offset : Nat}

theorem accelerate_at (contents : List UInt8) (head : ReadHead) (n : Nat) :
    ∃ head' bytes, accelerate readFn w contents head n = (head', bytes.take (min bytes.length n))
      ∧ bytes = readFn contents
        (min (contents.length - min contents.length ((head.offset + head.bufferSize) % 2 ^ 64))
          head'.speed)
        (min contents.length ((head.offset + head.bufferSize) % 2 ^ 64))
      ∧ head'.bufferSize = bytes.length
      ∧ head'.offset = (head.offset + head.bufferSize) % 2 ^ 64 :=
  ⟨_, _, rfl, rfl, rfl, rfl⟩

/-- A head without bytes behind the end of the file stays without bytes. -/
theorem tryHead_behind {head head' : ReadHead} {fileId : FileId} {out : List UInt8}
    (h : tryHead readFn w contents fileId n offset head = some (head', out))
    (hex : Exact readFn) (hempty : head.bufferSize = 0)
    (hbehind : contents.length < head.offset) :
    head.fileId = fileId ∧ Sound contents head' ∧ Answers contents n offset out := by
  have hfin : (head.offset + head.bufferSize) % 2 ^ 64 ≤ head.offset := by
    rw [hempty, Nat.add_zero]
    exact Nat.mod_le ..
  unfold tryHead at h
  split at h
  · next hid =>
    dsimp only at h
    split at h
    · cases h
    · next hge =>
      rw [if_neg (by omega)] at h
      split at h
      · next heq =>
        obtain ⟨hd, bytes, hacc, hbytes, hsize, -⟩ := @accelerate_at readFn w contents head n
        have hnone : bytes = [] := by
          rw [← heq] at hbytes
          have hzero : min (contents.length - min contents.length offset) hd.speed = 0 := by
            omega
          rw [hbytes, hzero, hex _ _ _ (by omega), slice_zero]
        rw [hacc, hnone] at h
        injection h with h
        injection h with hhead hout
        subst hhead hout
        rw [hnone] at hsize
        refine ⟨hid, .inl hsize, ⟨Nat.zero_le _, by rw [List.take_nil]; rfl, ?_⟩⟩
        intro _ hlt
        omega
      · cases h
  · cases h

/-- **A sound head that answers a read** answers correctly, and is sound afterwards. -/
theorem Sound.answering (hex : Exact readFn) : Answering readFn w Sound := by
  intro contents n offset fileId head head' out hsize hn htry hsound
  have hid : head.fileId = fileId := by
    unfold tryHead at htry
    split at htry
    · assumption
    · cases htry
  rcases hsound hid with hempty | hholds
  · by_cases hbehind : contents.length < head.offset
    · exact tryHead_behind htry hex hempty hbehind
    · -- no bytes inside the file are a part of the file
      have hholds : Holds contents head := by
        refine ⟨by omega, ?_⟩
        rw [hempty, slice_zero, slice_zero]
      obtain ⟨hid, hh, hans⟩ := tryHead_spec htry (fun _ => hholds) hex hsize hn
      exact ⟨hid, .inr hh, hans⟩
  · obtain ⟨hid, hh, hans⟩ := tryHead_spec htry (fun _ => hholds) hex hsize hn
    exact ⟨hid, .inr hh, hans⟩

/-! ## Over a run -/

structure World.SoundInv (s : World) : Prop where
  fresh : FreshFor Sound s.files s.buffer
  heads : s.buffer.readHeads.length = readHeadCount
  sizes : ∀ id, (s.files id).length < 2 ^ 64

variable {files : BitVec 32 → List UInt8} {s s' : World}

theorem World.SoundInv.nonempty (hi : s.SoundInv) : s.buffer.readHeads ≠ [] := by
  intro h
  have hlen := hi.heads
  rw [h] at hlen
  cases hlen

theorem World.SoundInv.initial (hsizes : ∀ id, (files id).length < 2 ^ 64) :
    World.SoundInv { buffer := .initial, files } := by
  have hi := World.Inv.initial hsizes
  exact ⟨fun head hmem id hne hid hc => .inr (hi.fresh head hmem id hne hid hc), hi.heads, hi.sizes⟩

/-- What a head claims after a reset that throws is nothing. -/
theorem FreshFor.coldReadThrows {s : ReadAheadBuffer} (hf : FreshFor Sound files s)
    (fileId : FileId) (n : Nat) :
    FreshFor Sound files { s.applyInvalidations with
      readHeads := Io.coldReadThrows w fileId n s.applyInvalidations.readHeads } := by
  intro head hmem id hne hid _
  dsimp only at hmem
  cases hcons : s.applyInvalidations.readHeads with
  | nil =>
    rw [hcons] at hmem
    cases hmem
  | cons first rest =>
    rw [hcons] at hmem
    rcases List.mem_cons.mp hmem with rfl | hold
    · exact .inl rfl
    · refine hf.applied ?_ hne hid
      rw [hcons]
      exact List.mem_cons_of_mem _ hold

theorem length_coldReadThrows (fileId : FileId) (n : Nat) (heads : List ReadHead) :
    (coldReadThrows w fileId n heads).length = heads.length := by
  cases heads <;> rfl

/-- One step, in which a read that throws extends no head. -/
theorem World.SoundInv.step {ev : FallibleEvent} (hi : s.SoundInv) (hex : Exact readFn)
    (hcold : ThrowsCold s ev) (h : s.stepFallible readFn w ev = some s') : s'.SoundInv := by
  cases ev with
  | readThrows fileId n offset leftover =>
    rw [World.stepFallible] at h
    split at h
    · obtain ⟨buffer, hthrow, rfl⟩ := Option.map_eq_some_iff.mp h
      unfold ReadAheadBuffer.readThrows at hthrow
      dsimp only at hthrow
      split at hthrow
      · cases hthrow
      · next hextends => exact absurd hextends hcold
      · obtain rfl := Option.some.inj hthrow
        refine ⟨hi.fresh.coldReadThrows _ n, ?_, hi.sizes⟩
        exact (length_coldReadThrows ..).trans (length_applyInvalidations.trans hi.heads)
    · cases h
  | returns ev =>
    have h : s.step readFn w ev = some s' := h
    cases ev with
    | read fileId n offset =>
      rw [World.step] at h
      split at h
      · next hread =>
        obtain rfl := Option.some.inj h
        refine ⟨(hi.fresh.read (Sound.answering hex) (fun _ _ => .inr) hex (hi.sizes fileId)
          hread.1 hi.nonempty hread.2).1, ?_, hi.sizes⟩
        rw [← hi.heads]
        exact length_read ..
      · cases h
    | invalidate fileId =>
      obtain rfl := Option.some.inj h
      exact ⟨hi.fresh.invalidate fileId, hi.heads, hi.sizes⟩
    | drop fileId =>
      obtain rfl := Option.some.inj h
      refine ⟨hi.fresh.drop fileId, ?_, hi.sizes⟩
      rw [← hi.heads]
      exact List.length_map ..
    | change fileId contents =>
      rw [World.step] at h
      split at h
      · next hsize =>
        obtain rfl := Option.some.inj h
        refine ⟨hi.fresh.change fileId contents, hi.heads, fun id => ?_⟩
        show (if id = fileId then contents else s.files id).length < 2 ^ 64
        split
        · exact hsize
        · exact hi.sizes id
      · cases h

/-- **Reads after reads that have failed**: in every run in which the reads that throw extend no
head, a read that returns has the bytes of the file, at most as many as it is asked for, and at
least one inside the file. -/
theorem read_after_failures {es : List FallibleEvent} (hex : Exact readFn)
    (hsizes : ∀ id, (files id).length < 2 ^ 64)
    (h : Run (World.stepFallible readFn w) ThrowsCold { buffer := .initial, files } es s)
    (fileId : BitVec 32) (hne : fileId ≠ 0) (n offset : Nat) (hn : n < 2 ^ w) :
    Answers (s.files fileId) n offset
      (s.buffer.read readFn w (s.files fileId) (headId fileId) n offset).2 := by
  have hi : s.SoundInv :=
    h.invariant (P := World.SoundInv) (.initial hsizes) fun _ _ _ hi hcold hs => hi.step hex hcold hs
  exact (hi.fresh.read (Sound.answering hex) (fun _ _ => .inr) hex (hi.sizes fileId) hne
    hi.nonempty hn).2

end

/-! A file of five bytes. One read of it throws, and then another one returns. -/

section

private def five : BitVec 32 → List UInt8 := fun _ => [1, 2, 3, 4, 5]

private def exactly : ReadFn := fun contents bytes offset => slice contents offset bytes

/-- The read that throws begins where the one before it ends: its head is extended. -/
theorem read_after_extension_throws : ∃ s,
    Run (World.stepFallible exactly 32) Always { buffer := .initial, files := five }
      [.returns (.read 1 2 0), .readThrows 1 1 2 fun _ => 66] s
    ∧ s.files 1 = [1, 2, 3, 4, 5]
    ∧ (s.buffer.read exactly 32 (s.files 1) (headId 1) 4 2).2 = [66, 66, 66, 66] := by
  obtain ⟨s, hrun, hp⟩ := Run.exists_of_execute (show (execute (World.stepFallible exactly 32) Always
    { buffer := .initial, files := five }
    [.returns (.read 1 2 0), .readThrows 1 1 2 fun _ => 66]).map
      (fun s => decide (s.files 1 = [1, 2, 3, 4, 5]
        ∧ (s.buffer.read exactly 32 (s.files 1) (headId 1) 4 2).2 = [66, 66, 66, 66]))
      = some true by decide +kernel)
  obtain ⟨hfile, hread⟩ := of_decide_eq_true hp
  exact ⟨s, hrun, hfile, hread⟩

/-- The read that throws is the first one of the file. -/
theorem read_after_failures_cold : ∃ s,
    Run (World.stepFallible exactly 32) ThrowsCold { buffer := .initial, files := five }
      [.readThrows 1 2 0 fun _ => 66, .returns (.read 1 2 0), .returns (.read 1 1 2)] s
    ∧ s.files 1 = [1, 2, 3, 4, 5]
    ∧ Answers (s.files 1) 2 3
      (s.buffer.read exactly 32 (s.files 1) (headId 1) 2 3).2 := by
  obtain ⟨s, hrun, hp⟩ := Run.exists_of_execute (show (execute (World.stepFallible exactly 32)
    ThrowsCold { buffer := .initial, files := five }
    [.readThrows 1 2 0 fun _ => 66, .returns (.read 1 2 0), .returns (.read 1 1 2)]).map
      (fun s => decide (s.files 1 = [1, 2, 3, 4, 5])) = some true by decide +kernel)
  have hfive : ∀ id, (five id).length < 2 ^ 64 := fun _ => show 5 < 2 ^ 64 by decide
  refine ⟨s, hrun, of_decide_eq_true hp, ?_⟩
  exact read_after_failures (fun _ _ _ _ => rfl) hfive hrun 1 (by decide) 2 3
    (by decide)

end

end Haybarn.Io
