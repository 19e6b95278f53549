import Haybarn.Lib.Run
import Haybarn.Lib.Slice

/-!
# The read-ahead buffer

`ReadAheadBuffer` keeps ten read heads. A head remembers a file and a range of it: a read
inside the range is served from the head, a read at its end extends it, each time by a
larger amount, and any other read recycles the oldest head. Invalidations are collected
in a mask of file ids and applied before the next read: a head goes when all bits of its
file id are in the mask.

`read_transparent`: the bytes a read returns are those of the file. The invariant
(`Fresh`) is that a head which the mask does not condemn holds a slice of its file.

Mirroring notes:
- `file_id`s are 64-bit words, those of `Read` come from 32 bits; all ones is no file.
- `size_t` has `w` bits (32 in WebAssembly), and conversions to it wrap.
- `buffer` is what `read_fn` has put there; what an allocation leaves in it is never read.
- The statistics a read registers are not modelled: nothing reads them here.
-/

namespace Haybarn.Io

open Haybarn.Lib

abbrev FileId := BitVec 64

/-- `std::numeric_limits<uint64_t>::max()`: a head without a file. -/
def noFile : FileId := BitVec.allOnes 64

def readaheadAcceleration : Nat := 4
def readaheadBase : Nat := 2 ^ 14
def readaheadMaximum : Nat := 2 ^ 24
def readHeadCount : Nat := 10

structure ReadHead where
  fileId : FileId := noFile
  /-- The offset of the buffered data. -/
  offset : Nat := 0
  speed : Nat := readaheadBase
  bufferSize : Nat := 0
  bufferCapacity : Nat := 0
  buffer : List UInt8 := []
  deriving DecidableEq, Repr

structure ReadAheadBuffer where
  invalidationMask : BitVec 64
  /-- The oldest head first. -/
  readHeads : List ReadHead
  deriving DecidableEq, Repr

def ReadAheadBuffer.initial : ReadAheadBuffer where
  invalidationMask := 0
  readHeads := List.replicate readHeadCount {}

/-- `ReadAheadBuffer::Invalidate`. -/
def ReadAheadBuffer.invalidate (s : ReadAheadBuffer) (fileId : FileId) : ReadAheadBuffer :=
  { s with invalidationMask := s.invalidationMask ||| fileId }

/-- The mask has every bit of the file id. -/
def condemned (mask : BitVec 64) (fileId : FileId) : Bool := (~~~mask &&& fileId) = 0

/-- The loop of `ApplyInvalidations`: `front` are the heads that were moved to the front,
`kept` those that were passed. -/
def applyLoop (mask : BitVec 64) (front kept : List ReadHead) : List ReadHead → List ReadHead
  | [] => front ++ kept
  | head :: rest =>
    if condemned mask head.fileId then
      applyLoop mask ({ head with fileId := noFile } :: front) kept rest
    else applyLoop mask front (kept ++ [head]) rest

/-- `ReadAheadBuffer::ApplyInvalidations`. -/
def ReadAheadBuffer.applyInvalidations (s : ReadAheadBuffer) : ReadAheadBuffer :=
  if s.invalidationMask = 0 then s
  else { invalidationMask := 0
         readHeads := applyLoop s.invalidationMask [] [] s.readHeads }

/-- `ReadAheadBuffer::Drop`. -/
def ReadAheadBuffer.drop (s : ReadAheadBuffer) (fileId : FileId) : ReadAheadBuffer :=
  { s with readHeads := s.readHeads.map fun head =>
      if head.fileId = fileId then { head with fileId := noFile } else head }

/-- The helper that sizes the buffer of a head. -/
def allocate (head : ReadHead) (size : Nat) : ReadHead :=
  if size ≤ head.bufferCapacity then { head with bufferSize := size }
  else { head with buffer := [], bufferSize := size, bufferCapacity := size }

/-! ## A read -/

/-- `read_fn` of a file with these contents: at most so many bytes from an offset. -/
abbrev ReadFn := (contents : List UInt8) → (bytes offset : Nat) → List UInt8

variable (readFn : ReadFn) (w : Nat)

/-- Bytes out of a head that has the offset. -/
def serve (head : ReadHead) (n offset : Nat) : List UInt8 :=
  slice head.buffer (offset - head.offset) (min (head.bufferSize - (offset - head.offset)) (n % 2 ^ w))

/-- A read exactly at the end of a head: it goes faster, and on to the next range. -/
def accelerate (contents : List UInt8) (head : ReadHead) (n : Nat) : ReadHead × List UInt8 :=
  let fin := (head.offset + head.bufferSize) % 2 ^ 64
  let head := { head with
    speed := max (min (head.speed * readaheadAcceleration % 2 ^ w) readaheadMaximum) readaheadBase }
  let head := allocate head head.speed
  let safeOffset := min contents.length fin
  let readHere := min (contents.length - safeOffset) head.speed
  let bytes := readFn contents readHere safeOffset
  ({ head with buffer := bytes, bufferSize := bytes.length, offset := fin },
    bytes.take (min bytes.length n))

/-- What one head does with a read, or `none` when it goes on to the next one. -/
def tryHead (contents : List UInt8) (fileId : FileId) (n offset : Nat) (head : ReadHead) :
    Option (ReadHead × List UInt8) :=
  if head.fileId = fileId then
    let fin := (head.offset + head.bufferSize) % 2 ^ 64
    if offset < head.offset then none
    else if offset < fin then some (head, serve w head n offset)
    else if offset = fin then some (accelerate readFn w contents head n)
    else none
  else none

/-- The loop over the heads: the one that answers goes to the end. -/
def scan (contents : List UInt8) (fileId : FileId) (n offset : Nat) (passed : List ReadHead) :
    List ReadHead → Option (List ReadHead × List UInt8)
  | [] => none
  | head :: rest =>
    match tryHead readFn w contents fileId n offset head with
    | some (head', out) => some (passed ++ rest ++ [head'], out)
    | none => scan contents fileId n offset (passed ++ [head]) rest

/-- No head qualified: the first one is reset, and nothing is buffered. -/
def coldRead (contents : List UInt8) (fileId : FileId) (n offset : Nat) :
    List ReadHead → List ReadHead × List UInt8
  | [] => ([], [])
  | head :: rest =>
    let safeOffset := min contents.length offset
    let readHere := min (contents.length - safeOffset) (n % 2 ^ w)
    let bytes := readFn contents readHere safeOffset
    (rest ++ [{ head with
      fileId, speed := n % 2 ^ w, bufferSize := 0, offset := safeOffset + bytes.length }], bytes)

/-- `ReadAheadBuffer::Read` of a file with these contents. -/
def ReadAheadBuffer.read (s : ReadAheadBuffer) (contents : List UInt8) (fileId : FileId)
    (n offset : Nat) : ReadAheadBuffer × List UInt8 :=
  let s := s.applyInvalidations
  match scan readFn w contents fileId n offset [] s.readHeads with
  | some (heads, out) => ({ s with readHeads := heads }, out)
  | none =>
    let (heads, out) := coldRead readFn w contents fileId n offset s.readHeads
    ({ s with readHeads := heads }, out)

/-! ## Invalidation masks -/

section

variable {mask : BitVec 64} {fileId : FileId}

theorem condemned_iff : condemned mask fileId = true ↔
    ∀ i, fileId.getLsbD i = true → mask.getLsbD i = true := by
  unfold condemned
  rw [decide_eq_true_eq]
  constructor
  · intro h i hi
    have hbit : (~~~mask &&& fileId).getLsbD i = false := by
      rw [h]
      exact BitVec.getLsbD_zero
    have hlt : i < 64 := BitVec.lt_of_getLsbD hi
    rw [BitVec.getLsbD_and, hi, Bool.and_true, BitVec.getLsbD_not, decide_eq_true hlt,
      Bool.true_and] at hbit
    simpa using hbit
  · intro h
    apply BitVec.eq_of_getLsbD_eq
    intro i hi
    have hbit := h i
    cases hf : fileId.getLsbD i with
    | true => simp [hf, hbit hf]
    | false => simp [hf]

/-- An invalidated file is condemned. -/
theorem condemned_or_self : condemned (mask ||| fileId) fileId = true := by
  apply condemned_iff.mpr
  intro i hi
  simp [hi]

theorem condemned_or {other : BitVec 64} (h : condemned mask fileId = true) :
    condemned (mask ||| other) fileId = true := by
  apply condemned_iff.mpr
  intro i hi
  simp [condemned_iff.mp h i hi]

end

/-- The id of a file as the heads store it. -/
def headId (fileId : BitVec 32) : FileId := fileId.setWidth 64

theorem headId_ne_noFile (fileId : BitVec 32) : headId fileId ≠ noFile := by
  intro h
  have hnat := congrArg BitVec.toNat h
  have hlt := fileId.isLt
  simp [headId, noFile] at hnat
  omega

theorem headId_inj {a b : BitVec 32} (h : headId a = headId b) : a = b := by
  apply BitVec.eq_of_toNat_eq
  have hnat := congrArg BitVec.toNat h
  have ha := a.isLt
  have hb := b.isLt
  simp only [headId, BitVec.toNat_setWidth] at hnat
  omega

/-- Without invalidations no file but `0` is condemned. -/
theorem not_condemned_zero {fileId : BitVec 32} (h : fileId ≠ 0) :
    condemned 0 (headId fileId) = false := by
  rw [Bool.eq_false_iff]
  intro hc
  apply h
  apply headId_inj
  apply BitVec.eq_of_getLsbD_eq
  intro i _
  cases hbit : (headId fileId).getLsbD i with
  | true =>
    have hzero := condemned_iff.mp hc i hbit
    simp at hzero
  | false => simp [headId]

/-! ## What a head holds -/

/-- The head's range is a part of the file, and its buffer holds just that part. -/
structure Holds (contents : List UInt8) (head : ReadHead) : Prop where
  within : head.offset + head.bufferSize ≤ contents.length
  buffered : slice head.buffer 0 head.bufferSize = slice contents head.offset head.bufferSize

/-- Every head that the mask does not condemn holds a part of its file. -/
def Fresh (files : BitVec 32 → List UInt8) (s : ReadAheadBuffer) : Prop :=
  ∀ head ∈ s.readHeads, ∀ fileId, fileId ≠ 0 → head.fileId = headId fileId →
    condemned s.invalidationMask head.fileId = false → Holds (files fileId) head

/-- The invariant once the invalidations are applied. -/
def Settled (files : BitVec 32 → List UInt8) (heads : List ReadHead) : Prop :=
  ∀ head ∈ heads, ∀ fileId, fileId ≠ 0 → head.fileId = headId fileId →
    Holds (files fileId) head

/-- `Fresh`, for what is wanted of a head (`H`). -/
def FreshFor (H : List UInt8 → ReadHead → Prop) (files : BitVec 32 → List UInt8)
    (s : ReadAheadBuffer) : Prop :=
  ∀ head ∈ s.readHeads, ∀ fileId, fileId ≠ 0 → head.fileId = headId fileId →
    condemned s.invalidationMask head.fileId = false → H (files fileId) head

theorem mem_applyLoop {mask : BitVec 64} {x : ReadHead} :
    ∀ (rest front kept : List ReadHead), x ∈ applyLoop mask front kept rest →
      x ∈ front ∨ x ∈ kept ∨ x.fileId = noFile ∨
        (x ∈ rest ∧ condemned mask x.fileId = false) := by
  intro rest
  induction rest with
  | nil =>
    intro front kept h
    rcases List.mem_append.mp h with hf | hk
    · exact .inl hf
    · exact .inr (.inl hk)
  | cons head rest ih =>
    intro front kept h
    rw [applyLoop] at h
    split at h
    next =>
      rcases ih _ _ h with hf | hk | hn | ⟨hr, hc⟩
      · rcases List.mem_cons.mp hf with rfl | hf
        · exact .inr (.inr (.inl rfl))
        · exact .inl hf
      · exact .inr (.inl hk)
      · exact .inr (.inr (.inl hn))
      · exact .inr (.inr (.inr ⟨List.mem_cons_of_mem _ hr, hc⟩))
    next hnot =>
      rcases ih _ _ h with hf | hk | hn | ⟨hr, hc⟩
      · exact .inl hf
      · rcases List.mem_append.mp hk with hk | hk
        · exact .inr (.inl hk)
        · obtain rfl := List.mem_singleton.mp hk
          exact .inr (.inr (.inr ⟨List.mem_cons_self .., by simpa using hnot⟩))
      · exact .inr (.inr (.inl hn))
      · exact .inr (.inr (.inr ⟨List.mem_cons_of_mem _ hr, hc⟩))

theorem length_applyLoop (mask : BitVec 64) (rest : List ReadHead) :
    ∀ front kept : List ReadHead, (applyLoop mask front kept rest).length =
      front.length + kept.length + rest.length := by
  induction rest with
  | nil =>
    intro front kept
    rw [applyLoop, List.length_append]
    rfl
  | cons head rest ih =>
    intro front kept
    rw [applyLoop]
    split
    · rw [ih, List.length_cons, List.length_cons]
      omega
    · rw [ih, List.length_append, List.length_singleton, List.length_cons]
      omega

variable {H : List UInt8 → ReadHead → Prop} {files : BitVec 32 → List UInt8} {s : ReadAheadBuffer}

theorem length_applyInvalidations :
    s.applyInvalidations.readHeads.length = s.readHeads.length := by
  unfold ReadAheadBuffer.applyInvalidations
  split
  · rfl
  · show (applyLoop _ [] [] s.readHeads).length = _
    rw [length_applyLoop]
    simp

/-- **Applying the invalidations** leaves only heads that hold their part. -/
theorem FreshFor.applied (h : FreshFor H files s) {head : ReadHead} {fileId : BitVec 32}
    (hmem : head ∈ s.applyInvalidations.readHeads) (hne : fileId ≠ 0)
    (hid : head.fileId = headId fileId) : H (files fileId) head := by
  unfold ReadAheadBuffer.applyInvalidations at hmem
  split at hmem
  next hzero =>
    apply h head hmem fileId hne hid
    rw [hzero, hid]
    exact not_condemned_zero hne
  next =>
    have hmem' : head ∈ applyLoop s.invalidationMask [] [] s.readHeads := hmem
    rcases mem_applyLoop _ _ _ hmem' with hf | hk | hn | ⟨hr, hc⟩
    · cases hf
    · cases hk
    · rw [hid] at hn
      exact absurd hn (headId_ne_noFile fileId)
    · exact h head hr fileId hne hid hc

theorem Fresh.applied (h : Fresh files s) : Settled files s.applyInvalidations.readHeads :=
  fun _ hmem _ hne hid => FreshFor.applied h hmem hne hid

/-- More invalidations condemn more heads. -/
theorem FreshFor.invalidate (h : FreshFor H files s) (fileId : FileId) :
    FreshFor H files (s.invalidate fileId) := by
  intro head hmem id hne hid hc
  apply h head hmem id hne hid
  rw [Bool.eq_false_iff] at hc ⊢
  exact fun hold => hc (condemned_or hold)

theorem FreshFor.drop (h : FreshFor H files s) (fileId : FileId) :
    FreshFor H files (s.drop fileId) := by
  intro head hmem id hne hid hc
  obtain ⟨old, hold, rfl⟩ := List.mem_map.mp hmem
  split at hid
  next => exact absurd hid.symm (headId_ne_noFile id)
  next hkeep =>
    rw [if_neg hkeep] at hc ⊢
    exact h old hold id hne hid hc

/-- The heads of a file that changes are condemned. -/
theorem FreshFor.change (h : FreshFor H files s) (fileId : BitVec 32) (contents : List UInt8) :
    FreshFor H (fun id => if id = fileId then contents else files id)
      (s.invalidate (headId fileId)) := by
  intro head hmem id hne hid hc
  have hother : id ≠ fileId := by
    rintro rfl
    have hself := @condemned_or_self s.invalidationMask (headId id)
    rw [hid] at hc
    have hc' : condemned (s.invalidationMask ||| headId id) (headId id) = false := hc
    rw [hself] at hc'
    cases hc'
  show H (if id = fileId then contents else files id) head
  rw [if_neg hother]
  exact h.invalidate (headId fileId) head hmem id hne hid hc

/-! ## What a read returns -/

/-- `read_fn` reads what it is asked for, inside the file. -/
def Exact (readFn : ReadFn) : Prop :=
  ∀ contents bytes offset, offset + bytes ≤ contents.length →
    readFn contents bytes offset = slice contents offset bytes

/-- A correct answer to a read of `n` bytes at `offset`. -/
structure Answers (contents : List UInt8) (n offset : Nat) (out : List UInt8) : Prop where
  at_most : out.length ≤ n
  correct : out = slice contents offset out.length
  progress : 0 < n → offset < contents.length → 0 < out.length

variable {readFn : ReadFn} {w : Nat} {contents : List UInt8} {n offset : Nat}

theorem Answers.of_slice {k : Nat} (hk : k ≤ n) (hfit : offset + k ≤ contents.length)
    (hpos : 0 < n → offset < contents.length → 0 < k) :
    Answers contents n offset (slice contents offset k) := by
  have hlen : (slice contents offset k).length = k := by
    rw [length_slice]
    omega
  refine ⟨by omega, ?_, ?_⟩
  · rw [hlen]
  · intro hn hlt
    rw [hlen]
    exact hpos hn hlt

/-- The bytes that a head has are those of the file. -/
theorem Holds.serve {head : ReadHead} (hh : Holds contents head) (hn : n < 2 ^ w)
    (hge : head.offset ≤ offset) (hlt : offset < head.offset + head.bufferSize) :
    Answers contents n offset (serve w head n offset) := by
  have hwithin := hh.within
  have hskip : head.offset + (offset - head.offset) = offset := by omega
  have hout : Io.serve w head n offset = slice contents offset
      (min n (head.bufferSize - (offset - head.offset))) := by
    have hslice := congrArg (fun xs => slice xs (offset - head.offset) n) hh.buffered
    rw [slice_slice, slice_slice, Nat.zero_add, hskip] at hslice
    unfold Io.serve
    rw [Nat.mod_eq_of_lt hn, Nat.min_comm, hslice]
  rw [hout]
  apply Answers.of_slice
  · omega
  · omega
  · intro hpos _
    omega

/-- A head that is extended holds the next range, and the answer is its beginning. -/
theorem Holds.accelerate {head : ReadHead} (hh : Holds contents head) (hex : Exact readFn)
    (hsize : contents.length < 2 ^ 64) (hoff : offset = head.offset + head.bufferSize) :
    Holds contents (accelerate readFn w contents head n).1 ∧
      Answers contents n offset (accelerate readFn w contents head n).2 := by
  have hwithin := hh.within
  have hfin : (head.offset + head.bufferSize) % 2 ^ 64 = offset := by
    rw [← hoff]
    exact Nat.mod_eq_of_lt (by omega)
  have hsafe : min contents.length offset = offset := by omega
  obtain ⟨speed, hspeed, hbase⟩ : ∃ speed, speed =
      max (min (head.speed * readaheadAcceleration % 2 ^ w) readaheadMaximum) readaheadBase ∧
      0 < speed := by
    refine ⟨_, rfl, ?_⟩
    have hpos : 0 < readaheadBase := Nat.two_pow_pos 14
    omega
  have hhead : ∀ h : ReadHead, (allocate h h.speed).speed = h.speed := by
    intro h
    unfold allocate
    split <;> rfl
  have hread : readFn contents (min (contents.length - offset) speed) offset =
      slice contents offset (min (contents.length - offset) speed) := by
    apply hex
    omega
  have hlen : (slice contents offset (min (contents.length - offset) speed)).length =
      min (contents.length - offset) speed := by
    rw [length_slice]
    omega
  unfold Io.accelerate
  dsimp only
  rw [hfin, hsafe, hhead]
  dsimp only
  rw [← hspeed, hread, hlen]
  refine ⟨⟨?_, ?_⟩, ?_⟩
  · dsimp only
    omega
  · dsimp only
    rw [slice_slice, Nat.add_zero, Nat.sub_zero, Nat.min_self]
  · rw [take_slice]
    apply Answers.of_slice
    · omega
    · omega
    · intro hpos hlt
      omega

/-- A head that answers held a part of the file, and does so again. -/
theorem tryHead_spec {head head' : ReadHead} {fileId : FileId} {out : List UInt8}
    (h : tryHead readFn w contents fileId n offset head = some (head', out))
    (hh : head.fileId = fileId → Holds contents head) (hex : Exact readFn)
    (hsize : contents.length < 2 ^ 64) (hn : n < 2 ^ w) :
    head.fileId = fileId ∧ Holds contents head' ∧ Answers contents n offset out := by
  unfold tryHead at h
  split at h
  next hid =>
    have hholds := hh hid
    have hwithin := hholds.within
    have hfin : (head.offset + head.bufferSize) % 2 ^ 64 = head.offset + head.bufferSize :=
      Nat.mod_eq_of_lt (by omega)
    dsimp only at h
    rw [hfin] at h
    split at h
    · cases h
    next hge =>
      split at h
      next hlt =>
        injection h with h
        injection h with hhead hout
        subst hhead hout
        exact ⟨hid, hholds, hholds.serve hn (by omega) hlt⟩
      next =>
        split at h
        next heq =>
          obtain ⟨hh', hans⟩ := hholds.accelerate (n := n) (w := w) hex hsize heq
          injection h with h
          rw [h] at hh' hans
          exact ⟨hid, hh', hans⟩
        next => cases h
  next => cases h

/-- The loop stops at a head that answers, and puts it at the end. -/
theorem scan_spec {fileId : FileId} {heads : List ReadHead} {out : List UInt8} :
    ∀ (rest passed : List ReadHead),
      scan readFn w contents fileId n offset passed rest = some (heads, out) →
      ∃ pre head post head', rest = pre ++ head :: post ∧
        tryHead readFn w contents fileId n offset head = some (head', out) ∧
        heads = passed ++ pre ++ post ++ [head'] := by
  intro rest
  induction rest with
  | nil =>
    intro passed h
    cases h
  | cons head rest ih =>
    intro passed h
    rw [scan] at h
    split at h
    next head' out' htry =>
      injection h with h
      injection h with hheads hout
      subst hheads hout
      exact ⟨[], head, rest, head', rfl, htry, by rw [List.append_nil]⟩
    next =>
      obtain ⟨pre, hd, post, hd', rfl, htry, hheads⟩ := ih _ h
      refine ⟨head :: pre, hd, post, hd', rfl, htry, ?_⟩
      rw [hheads, List.append_assoc passed [head]]
      rfl

theorem tryHead_fileId {head head' : ReadHead} {fileId : FileId} {out : List UInt8}
    (h : tryHead readFn w contents fileId n offset head = some (head', out)) :
    head'.fileId = head.fileId := by
  unfold tryHead at h
  split at h
  · dsimp only at h
    split at h
    · cases h
    · split at h
      · injection h with h
        injection h with hhead _
        rw [← hhead]
      · split at h
        · injection h with h
          have hhead : (accelerate readFn w contents head n).1 = head' := congrArg Prod.fst h
          rw [← hhead]
          show (allocate _ _).fileId = head.fileId
          unfold allocate
          split <;> rfl
        · cases h
  · cases h

theorem length_read (s : ReadAheadBuffer) (contents : List UInt8) (fileId : FileId)
    (n offset : Nat) :
    (s.read readFn w contents fileId n offset).1.readHeads.length = s.readHeads.length := by
  rw [← length_applyInvalidations (s := s)]
  unfold ReadAheadBuffer.read
  dsimp only
  split
  next heads out hscan =>
    obtain ⟨pre, head, post, head', hheads, -, hresult⟩ := scan_spec _ _ hscan
    rw [hheads, hresult]
    simp
  next =>
    cases s.applyInvalidations.readHeads with
    | nil => rfl
    | cons head rest => simp [coldRead]

/-- What a head does that answers a read. -/
def Answering (readFn : ReadFn) (w : Nat) (H : List UInt8 → ReadHead → Prop) : Prop :=
  ∀ contents n offset fileId head head' out, contents.length < 2 ^ 64 → n < 2 ^ w →
    tryHead readFn w contents fileId n offset head = some (head', out) →
    (head.fileId = fileId → H contents head) →
      head.fileId = fileId ∧ H contents head' ∧ Answers contents n offset out

/-- **One read**: the answer is right, and the heads go on holding what they should. -/
theorem FreshFor.read {fileId : BitVec 32} (hf : FreshFor H files s)
    (htry : Answering readFn w H) (hholds : ∀ contents head, Holds contents head → H contents head)
    (hex : Exact readFn) (hsize : (files fileId).length < 2 ^ 64) (hne : fileId ≠ 0)
    (hheads : s.readHeads ≠ []) (hn : n < 2 ^ w) :
    FreshFor H files (s.read readFn w (files fileId) (headId fileId) n offset).1 ∧
      Answers (files fileId) n offset
        (s.read readFn w (files fileId) (headId fileId) n offset).2 := by
  unfold ReadAheadBuffer.read
  dsimp only
  split
  next heads out hscan =>
    obtain ⟨pre, head, post, head', hsplit, hstop, rfl⟩ := scan_spec _ _ hscan
    have hhead : head ∈ s.applyInvalidations.readHeads := by
      rw [hsplit]
      simp
    obtain ⟨hid, hnew, hans⟩ := htry _ _ _ _ _ _ _ hsize hn hstop
      fun hid => hf.applied hhead hne hid
    refine ⟨fun x hx id hidne hxid _ => ?_, hans⟩
    have hx' : x ∈ [] ++ pre ++ post ++ [head'] := hx
    rcases List.mem_append.mp hx' with hold | hlast
    · refine hf.applied ?_ hidne hxid
      rw [hsplit]
      simp only [List.nil_append, List.mem_append, List.mem_cons] at hold ⊢
      tauto
    · obtain rfl := List.mem_singleton.mp hlast
      rw [tryHead_fileId hstop, hid] at hxid
      obtain rfl := headId_inj hxid
      exact hnew
  next hscan =>
    cases hcons : s.applyInvalidations.readHeads with
    | nil =>
      have hlen := length_applyInvalidations (s := s)
      rw [hcons] at hlen
      exact absurd (List.eq_nil_of_length_eq_zero hlen.symm) hheads
    | cons head rest =>
      have hread : readFn (files fileId)
          (min ((files fileId).length - min (files fileId).length offset) (n % 2 ^ w))
          (min (files fileId).length offset) =
          slice (files fileId) (min (files fileId).length offset)
            (min ((files fileId).length - min (files fileId).length offset) n) := by
        rw [Nat.mod_eq_of_lt hn]
        apply hex
        omega
      unfold coldRead
      dsimp only
      rw [hread]
      constructor
      · intro x hx id hidne hxid _
        rcases List.mem_append.mp hx with hold | hnew
        · refine hf.applied ?_ hidne hxid
          rw [hcons]
          exact List.mem_cons_of_mem _ hold
        · obtain rfl := List.mem_singleton.mp hnew
          obtain rfl := headId_inj hxid
          refine hholds _ _ ⟨?_, ?_⟩
          · dsimp only
            rw [length_slice]
            omega
          · dsimp only
            rw [slice_zero, slice_zero]
      · by_cases hlt : offset ≤ (files fileId).length
        · rw [Nat.min_eq_right hlt]
          apply Answers.of_slice
          · omega
          · omega
          · intro hpos _
            omega
        · -- past the end nothing is read
          have hzero : min ((files fileId).length - min (files fileId).length offset) n = 0 := by
            omega
          rw [hzero, slice_zero]
          refine ⟨by simp, by simp, fun _ h => absurd h (by omega)⟩

theorem Fresh.read {fileId : BitVec 32} (hf : Fresh files s) (hex : Exact readFn)
    (hsize : (files fileId).length < 2 ^ 64) (hne : fileId ≠ 0) (hheads : s.readHeads ≠ [])
    (hn : n < 2 ^ w) :
    Fresh files (s.read readFn w (files fileId) (headId fileId) n offset).1 ∧
      Answers (files fileId) n offset
        (s.read readFn w (files fileId) (headId fileId) n offset).2 :=
  FreshFor.read hf (fun _ _ _ _ _ _ _ hsize hn hstop hh => tryHead_spec hstop hh hex hsize hn)
    (fun _ _ h => h) hex hsize hne hheads hn

/-! ## Over a run -/

/-- The buffer and the files behind it. -/
structure World where
  buffer : ReadAheadBuffer
  files : BitVec 32 → List UInt8

inductive Event
  | read (fileId : BitVec 32) (n offset : Nat)
  | invalidate (fileId : FileId)
  | drop (fileId : FileId)
  /-- A file changes, together with an invalidation. -/
  | change (fileId : BitVec 32) (contents : List UInt8)

/-- One step: `n` is the length of a buffer in memory, a file is shorter than `2 ^ 64`. -/
def World.step (readFn : ReadFn) (w : Nat) (s : World) : Event → Option World
  | .read fileId n offset =>
    if fileId ≠ 0 ∧ n < 2 ^ w then
      some { s with buffer :=
        (s.buffer.read readFn w (s.files fileId) (headId fileId) n offset).1 }
    else none
  | .invalidate fileId => some { s with buffer := s.buffer.invalidate fileId }
  | .drop fileId => some { s with buffer := s.buffer.drop fileId }
  | .change fileId contents =>
    if contents.length < 2 ^ 64 then
      some { buffer := s.buffer.invalidate (headId fileId)
             files := fun id => if id = fileId then contents else s.files id }
    else none

structure World.Inv (s : World) : Prop where
  fresh : Fresh s.files s.buffer
  heads : s.buffer.readHeads.length = readHeadCount
  sizes : ∀ id, (s.files id).length < 2 ^ 64

theorem World.Inv.nonempty {s : World} (hi : s.Inv) : s.buffer.readHeads ≠ [] := by
  intro h
  have hlen := hi.heads
  rw [h] at hlen
  cases hlen

theorem World.Inv.initial (hsizes : ∀ id, (files id).length < 2 ^ 64) :
    World.Inv { buffer := .initial, files } := by
  refine ⟨fun head hmem id _ hid _ => ?_, List.length_replicate, hsizes⟩
  obtain rfl := List.eq_of_mem_replicate hmem
  exact absurd hid.symm (headId_ne_noFile id)

theorem World.Inv.step {s s' : World} {ev : Event} (hi : s.Inv) (hex : Exact readFn)
    (h : World.step readFn w s ev = some s') : s'.Inv := by
  cases ev with
  | read fileId n offset =>
    rw [World.step] at h
    split at h
    next hread =>
      obtain rfl := Option.some.inj h
      refine ⟨(hi.fresh.read hex (hi.sizes fileId) hread.1 hi.nonempty hread.2).1, ?_, hi.sizes⟩
      rw [← hi.heads]
      exact length_read ..
    next => cases h
  | invalidate fileId =>
    obtain rfl := Option.some.inj h
    exact ⟨FreshFor.invalidate hi.fresh fileId, hi.heads, hi.sizes⟩
  | drop fileId =>
    obtain rfl := Option.some.inj h
    refine ⟨FreshFor.drop hi.fresh fileId, ?_, hi.sizes⟩
    rw [← hi.heads]
    exact List.length_map ..
  | change fileId contents =>
    rw [World.step] at h
    split at h
    next hsize =>
      obtain rfl := Option.some.inj h
      refine ⟨FreshFor.change hi.fresh fileId contents, hi.heads, fun id => ?_⟩
      show (if id = fileId then contents else s.files id).length < 2 ^ 64
      split
      · exact hsize
      · exact hi.sizes id
    next => cases h

/-- **The read-ahead buffer is transparent**: after any run of reads, invalidations and
changes, a read returns at most `n` bytes, they are the bytes of the file at the offset,
and there is at least one when one was asked for and the offset is inside the file. -/
theorem read_transparent {s : World} {es : List Event} (hex : Exact readFn)
    (hsizes : ∀ id, (files id).length < 2 ^ 64)
    (h : Run (World.step readFn w) Always { buffer := .initial, files } es s)
    (fileId : BitVec 32) (hne : fileId ≠ 0) (n offset : Nat) (hn : n < 2 ^ w) :
    Answers (s.files fileId) n offset
      (s.buffer.read readFn w (s.files fileId) (headId fileId) n offset).2 := by
  have hi : s.Inv :=
    h.invariant (P := World.Inv) (.initial hsizes) fun _ _ _ hi _ hs => hi.step hex hs
  exact (hi.fresh.read hex (hi.sizes fileId) hne hi.nonempty hn).2

theorem exact_slice : Exact fun contents bytes offset => slice contents offset bytes :=
  fun _ _ _ _ => rfl

/-- A file of five bytes: a cold read, one at its end that reads ahead, a change. -/
def fiveBytes : List Event :=
  [.read 1 2 0, .read 1 1 2, .change 1 [9, 8, 7, 6, 5]]

theorem read_transparent_changed : ∃ s,
    Run (World.step (fun contents bytes offset => slice contents offset bytes) 32) Always
      { buffer := .initial, files := fun _ => [1, 2, 3, 4, 5] } fiveBytes s ∧
    s.files 1 = [9, 8, 7, 6, 5] ∧
    Answers (s.files 1) 2 3 (s.buffer.read (fun contents bytes offset =>
      slice contents offset bytes) 32 (s.files 1) (headId 1) 2 3).2 := by
  obtain ⟨s, hrun, hp⟩ := Run.exists_of_execute (show (execute
    (World.step (fun contents bytes offset => slice contents offset bytes) 32) Always
    { buffer := .initial, files := fun _ => [1, 2, 3, 4, 5] } fiveBytes).map
      (fun s => decide (s.files 1 = [9, 8, 7, 6, 5])) = some true by decide +kernel)
  refine ⟨s, hrun, of_decide_eq_true hp, ?_⟩
  exact read_transparent exact_slice (fun _ => by decide) hrun 1 (by decide) 2 3 (by decide)

end Haybarn.Io
