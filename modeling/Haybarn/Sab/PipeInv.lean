import Haybarn.Sab.Pipe
import Haybarn.Sab.RingInv

/-!
# First in, first out

The invariant of a pipe over every interleaving, as long as the positions fit
their Int32 lanes: the ring holds exactly the bytes sent and not yet received,
both ends know what their outlines say, and what was received is the part of
what was sent up to the read position (`Inv.received`).

`produce_cases` and `consume_cases` are the two ends' steps, with the ring
effects of `WriteCall.step_cases` and `ReadCall.step_cases`; `inv_step` puts
them together and `inv_run` is the induction over a run. The results are `fifo`
and `arith_safe`.
-/

namespace Haybarn.Sab.Pipe

open Haybarn.Lib

variable {p : Pipe} {s s' : State}

/-! ## Lists -/

theorem map_getD_range {chunk : List UInt8} {k : Nat} (h : k ≤ chunk.length) :
    ((List.range k).map fun i => chunk.getD i 0) = chunk.take k := by
  refine List.ext_getElem (by simp [h]) fun i h1 h2 => ?_
  have hi : i < chunk.length := by
    rw [List.length_map, List.length_range] at h1
    omega
  rw [List.getElem_map, List.getElem_range, List.getElem_take, List.getD_eq_getElem?_getD,
    List.getElem?_eq_getElem hi, Option.getD_some]

/-- The bytes found at the positions from `n` on are the next part of the list. -/
theorem take_append_of_getElem? {l got : List UInt8} {n : Nat}
    (h : ∀ j b, got[j]? = some b → l[n + j]? = some b) (hn : n + got.length ≤ l.length) :
    l.take n ++ got = l.take (n + got.length) := by
  rw [List.take_add]
  congr 1
  refine List.ext_getElem (by simp; omega) fun i h1 h2 => ?_
  have hget := h i got[i] (List.getElem?_eq_getElem h1)
  obtain ⟨hlt, heq⟩ := List.getElem?_eq_some_iff.mp hget
  rw [List.getElem_take, List.getElem_drop, heq]

/-! ## The invariant -/

/-- What is in flight: the byte at position `i` of the stream is byte `i` of what
was sent. -/
def State.InFlight (s : State) (i : Nat) (b : UInt8) : Prop := s.sent[i]? = some b

structure Inv (p : Pipe) (s : State) : Prop where
  ring : RingOk p.ringCap p.dir s.InFlight s.slot
  len : s.slot.writePos p.dir = s.sent.length
  writing : ∀ chunk pc, s.producer = .writing chunk pc → (p.writeCall chunk).Ok s.slot pc
  reading : ∀ n pc, s.consumer = .reading n pc → (p.readCall n).Ok s.InFlight s.slot pc
  received : s.received = s.sent.take (s.slot.readPos p.dir).toNat

theorem inv_init (h : p.Init s) : Inv p s := by
  have hsent : s.sent = [] := by
    unfold State.sent
    rw [h.writes, h.producer]
    rfl
  have hreceived : s.received = [] := by
    unfold State.received State.returned
    rw [h.reads, h.consumer]
    rfl
  have hw : s.slot.writePos p.dir = 0 := by
    unfold Slot.writePos
    rw [h.write]
    rfl
  have hr : s.slot.readPos p.dir = 0 := by
    unfold Slot.readPos
    rw [h.read]
    rfl
  refine ⟨⟨?_, ?_, ?_, ?_⟩, ?_, ?_, ?_, ?_⟩
  · exact Int.le_of_eq hr.symm
  · exact Int.le_of_eq (hr.trans hw.symm)
  · rw [hr, hw]; omega
  · rw [hr, hw]; exact .empty (Nat.le_refl _)
  · rw [hw, hsent]; rfl
  · intro chunk pc hpc; rw [h.producer] at hpc; cases hpc
  · intro n pc hpc; rw [h.consumer] at hpc; cases hpc
  · rw [hreceived, hsent, List.take_nil]

/-! ## The steps of the two ends -/

/-- What an event can do to a state, one constructor for each kind of step. -/
inductive Moved (p : Pipe) (s : State) : Event → State → Prop
  | write (chunk : List UInt8) (hidle : s.producer = .idle) :
      Moved p s (.write chunk)
        { s with producer := .writing chunk ((p.writeCall chunk).loop 0) }
  | close (hidle : s.producer = .idle) :
      Moved p s .close { s with producer := .closing p.closer.start }
  | writeStep {chunk : List UInt8} {pc : WritePC} {ins : Instr UInt8 WritePC}
      (hpc : s.producer = .writing chunk pc) (hins : (p.writeCall chunk).next pc = some ins) :
      Moved p s .produce
        { s with slot := (ins.exec s.slot).1, producer := .writing chunk (ins.exec s.slot).2 }
  | writeReturn {chunk : List UInt8} {result : Nat}
      (hpc : s.producer = .writing chunk (.done result)) :
      Moved p s .produce
        { s with producer := .idle, writes := s.writes ++ [chunk.take result] }
  | closeStep {pc : ClosePC} {ins : Instr UInt8 ClosePC} (hpc : s.producer = .closing pc)
      (hins : p.closer.next pc = some ins) :
      Moved p s .produce
        { s with slot := (ins.exec s.slot).1, producer := .closing (ins.exec s.slot).2 }
  | closeReturn {result : Bool} (hpc : s.producer = .closing (.done result)) :
      Moved p s .produce { s with producer := .closed }
  | read (n : Nat) (hidle : s.consumer = .idle) :
      Moved p s (.read n) { s with consumer := .reading n (p.readStart n) }
  | readStep {n : Nat} {pc : ReadPC UInt8} {ins : Instr UInt8 (ReadPC UInt8)}
      (hpc : s.consumer = .reading n pc) (hins : p.readNext n pc = some ins) :
      Moved p s .consume
        { s with slot := (ins.exec s.slot).1, consumer := .reading n (ins.exec s.slot).2 }
  | readReturn {n : Nat} {result : Int} {dst : List UInt8}
      (hpc : s.consumer = .reading n (.done result dst)) :
      Moved p s .consume { s with consumer := .idle, reads := s.reads ++ [dst] }
  | poke (l : Lane) (v : Int32) (hw : l ≠ p.dir.writeLane) (hr : l ≠ p.dir.readLane) :
      Moved p s (.poke l v) { s with slot := s.slot.setLane l v }
  | pokeByte (d : Dir) (i : Nat) (b : UInt8) (hd : d ≠ p.dir) :
      Moved p s (.pokeByte d i b) { s with slot := s.slot.setByte d i b }

theorem produce_moved (h : p.produce s = some s') : Moved p s .produce s' := by
  unfold produce at h
  split at h
  next chunk pc hpc =>
    split at h
    next _ ins hins => rw [← Option.some.inj h]; exact .writeStep hpc hins
    next => rw [← Option.some.inj h]; exact .writeReturn hpc
    next => cases h
  next pc hpc =>
    split at h
    next _ ins hins => rw [← Option.some.inj h]; exact .closeStep hpc hins
    next => rw [← Option.some.inj h]; exact .closeReturn hpc
    next => cases h
  next => cases h
  next => cases h

theorem consume_moved (h : p.consume s = some s') : Moved p s .consume s' := by
  unfold consume at h
  split at h
  next n pc hpc =>
    split at h
    next _ ins hins => rw [← Option.some.inj h]; exact .readStep hpc hins
    next => rw [← Option.some.inj h]; exact .readReturn hpc
    next => cases h
  next => cases h

/-- The one case analysis of `step`. -/
theorem step_moved {e : Event} (h : p.step s e = some s') : Moved p s e s' := by
  cases e with
  | write chunk =>
    obtain ⟨hidle, heq⟩ := Option.ite_none_right_eq_some.mp h
    rw [← Option.some.inj heq]
    exact .write chunk hidle
  | close =>
    obtain ⟨hidle, heq⟩ := Option.ite_none_right_eq_some.mp h
    rw [← Option.some.inj heq]
    exact .close hidle
  | produce => exact produce_moved h
  | read n =>
    obtain ⟨hidle, heq⟩ := Option.ite_none_right_eq_some.mp h
    rw [← Option.some.inj heq]
    exact .read n hidle
  | consume => exact consume_moved h
  | poke l v =>
    obtain ⟨hl, heq⟩ := Option.ite_none_left_eq_some.mp h
    obtain ⟨hw, hr⟩ := not_or.mp hl
    rw [← Option.some.inj heq]
    exact .poke l v hw hr
  | pokeByte d i b =>
    obtain ⟨hd, heq⟩ := Option.ite_none_left_eq_some.mp h
    rw [← Option.some.inj heq]
    exact .pokeByte d i b hd

/-- One step of the reader, whichever of the two loops it runs. -/
theorem readNext_cases {P : Nat → UInt8 → Prop} {n : Nat} {pc : ReadPC UInt8}
    {ins : Instr UInt8 (ReadPC UInt8)} {s : Slot UInt8}
    (hR : RingOk p.ringCap p.dir P s) (h : (p.readCall n).Ok P s pc)
    (hn : p.readNext n pc = some ins) :
    ReaderMove p.dir P pc.fetched s (ins.exec s).1 ∧
      (p.readCall n).Ok P (ins.exec s).1 (ins.exec s).2 := by
  unfold readNext at hn
  split at hn
  · exact ReadCall.stub_step_cases (c := p.readCall n) hR h hn
  · exact ReadCall.step_cases (c := p.readCall n) hR h hn

theorem readNext_consumed {n : Nat} {pc : ReadPC UInt8} {ins : Instr UInt8 (ReadPC UInt8)}
    (hn : p.readNext n pc = some ins) (s : Slot UInt8) :
    (ins.exec s).2.consumed = pc.consumed ++ pc.fetched := by
  unfold readNext at hn
  split at hn
  · exact ReadCall.stub_step_consumed hn s
  · exact ReadCall.step_consumed hn s

/-- The reader stores to no lane but its read lane and the reservation. -/
theorem readStep_lane {n : Nat} {pc : ReadPC UInt8} {ins : Instr UInt8 (ReadPC UInt8)}
    (h : p.readNext n pc = some ins) (s : Slot UInt8) {l : Lane} (hl : l ≠ .reservation)
    (hr : l ≠ p.dir.readLane) : (ins.exec s).1.lane l = s.lane l := by
  unfold readNext at h
  split at h
  · exact ReadCall.stub_step_lane h s hr
  · exact ReadCall.step_lane h s (fun _ _ => hl) hr

theorem readStart_ok {P : Nat → UInt8 → Prop} (n : Nat) (s : Slot UInt8) :
    (p.readCall n).Ok P s (p.readStart n) := by
  unfold readStart
  split
  · exact trivial
  · exact ReadCall.loop_ok ..

theorem readStart_consumed (n : Nat) : (p.readStart n).consumed = [] := by
  unfold readStart
  split
  · rfl
  · exact ReadCall.loop_consumed _

/-! ## Every step keeps the invariant -/

/-- Steps that leave the direction, the bytes sent and received and both calls
alone. -/
theorem Inv.of_sameDir (h : Inv p s) (hs : SameDir p.dir s.slot s'.slot)
    (hsent : s'.sent = s.sent) (hrec : s'.received = s.received)
    (hw : ∀ chunk pc, s'.producer = .writing chunk pc → s.producer = .writing chunk pc)
    (hr : ∀ n pc, s'.consumer = .reading n pc → s.consumer = .reading n pc) : Inv p s' := by
  have hfl : s'.InFlight = s.InFlight := by
    unfold State.InFlight
    rw [hsent]
  refine ⟨?_, ?_, ?_, ?_, ?_⟩
  · rw [hfl]; exact h.ring.of_sameDir hs
  · rw [hs.writePos, hsent]; exact h.len
  · intro chunk pc hpc
    exact WriteCall.Ok.of_sameDir hs (h.writing chunk pc (hw chunk pc hpc))
  · intro n pc hpc
    rw [hfl]
    exact ReadCall.Ok.of_sameDir hs (h.reading n pc (hr n pc hpc))
  · rw [hrec, hs.readPos, hsent]
    exact h.received

/-- Steps of the producer that leave the slot and the bytes sent alone. -/
theorem Inv.of_producer {q : Producer} {w : List (List UInt8)} (h : Inv p s)
    (hsent : w.flatten ++ q.written = s.sent)
    (hok : ∀ chunk pc, q = .writing chunk pc → (p.writeCall chunk).Ok s.slot pc) :
    Inv p { s with producer := q, writes := w } := by
  have hfl : State.InFlight { s with producer := q, writes := w } = s.InFlight := by
    unfold State.InFlight State.sent
    rw [hsent]
    rfl
  refine ⟨?_, ?_, hok, ?_, ?_⟩
  · rw [hfl]; exact h.ring
  · rw [h.len, ← hsent]; rfl
  · intro n pc hpc
    rw [hfl]
    exact h.reading n pc hpc
  · exact h.received.trans (by rw [← hsent]; rfl)

/-- Steps of the consumer that leave the slot and the bytes received alone. -/
theorem Inv.of_consumer {q : Consumer} {r : List (List UInt8)} (h : Inv p s)
    (hrec : r.flatten ++ q.consumed = s.received)
    (hok : ∀ n pc, q = .reading n pc → (p.readCall n).Ok s.InFlight s.slot pc) :
    Inv p { s with consumer := q, reads := r } :=
  ⟨h.ring, h.len, h.writing, hok, hrec.trans h.received⟩

/-- A step of `ringWrite` puts in what it publishes. -/
theorem sent_writeStep {chunk : List UInt8} {pc : WritePC} {ins : Instr UInt8 WritePC}
    (h : Inv p s) (hpc : s.producer = .writing chunk pc)
    (hins : (p.writeCall chunk).next pc = some ins) :
    s.writes.flatten ++ chunk.take (ins.exec s.slot).2.off
      = s.sent ++ (p.writeCall chunk).published pc := by
  have hok := h.writing chunk pc hpc
  have hoff := WriteCall.step_off (c := p.writeCall chunk) h.ring hok hins
  have hle := WriteCall.Ok.off_le hok
  have h1 : (List.range pc.off).map (p.writeCall chunk).src = chunk.take pc.off :=
    map_getD_range (Nat.le_trans (Nat.le_add_right ..) hle)
  have h2 : (List.range (pc.off + ((p.writeCall chunk).published pc).length)).map
      (p.writeCall chunk).src = chunk.take (pc.off + ((p.writeCall chunk).published pc).length) :=
    map_getD_range hle
  unfold State.sent
  rw [hpc, Producer.written, List.append_assoc, ← h1, WriteCall.take_off_append, h2, hoff]

/-- A step of `ringWrite` keeps the invariant while the position it publishes fits. -/
theorem inv_writeStep {chunk : List UInt8} {pc : WritePC} {ins : Instr UInt8 WritePC}
    (h : Inv p s) (hpc : s.producer = .writing chunk pc)
    (hins : (p.writeCall chunk).next pc = some ins)
    (hfit : s.sent.length + ((p.writeCall chunk).published pc).length < 2 ^ 31) :
    Inv p { s with slot := (ins.exec s.slot).1, producer := .writing chunk (ins.exec s.slot).2 } := by
  have hok := h.writing chunk pc hpc
  have h0 := Int.le_trans h.ring.read_nonneg h.ring.read_le
  have hlen := h.len
  have htarget : pc.target < 2 ^ 31 := by
    rcases hok.target_eq with ht | ht
    · omega
    · have hd : (p.writeCall chunk).dir = p.dir := rfl
      rw [hd] at ht
      omega
  obtain ⟨hm, hok'⟩ := WriteCall.step_cases (c := p.writeCall chunk) h.ring hok hins htarget
  have hsent := sent_writeStep h hpc hins
  generalize (p.writeCall chunk).published pc = new at hm hsent hfit
  have hgrow : ∀ i b, s.InFlight i b → (s.sent ++ new)[i]? = some b := by
    intro i b hb
    have hi : i < s.sent.length := (List.getElem?_eq_some_iff.mp hb).1
    rw [List.getElem?_append_left hi]
    exact hb
  have hnew : ∀ j b, new[j]? = some b →
      (s.sent ++ new)[(s.slot.writePos p.dir).toNat + j]? = some b := by
    intro j b hb
    rw [show (s.slot.writePos p.dir).toNat + j = s.sent.length + j by omega,
      List.getElem?_append_right (by omega), Nat.add_sub_cancel_left]
    exact hb
  have hfl : State.InFlight { s with
      slot := (ins.exec s.slot).1, producer := .writing chunk (ins.exec s.slot).2 }
      = fun i b => (s.sent ++ new)[i]? = some b := by
    unfold State.InFlight
    rw [← hsent]
    rfl
  refine ⟨?_, ?_, ?_, ?_, ?_⟩
  · rw [hfl]
    exact h.ring.of_writerMove hm hgrow hnew
  · show (ins.exec s.slot).1.writePos p.dir = ((s.writes.flatten ++ _ : List UInt8).length : Int)
    have hw : (ins.exec s.slot).1.writePos p.dir = s.slot.writePos p.dir + new.length :=
      hm.writePos h0
    rw [hw, Producer.written, hsent, List.length_append]
    omega
  · intro chunk' pc' hpc'
    obtain ⟨rfl, rfl⟩ := Producer.writing.inj hpc'
    exact hok'
  · intro n pc' hpc'
    rw [hfl]
    exact ReadCall.Ok.mono (ReadCall.Ok.of_writerMove h0 hm (h.reading n pc' hpc')) hgrow
  · show s.received = (s.writes.flatten ++ _ : List UInt8).take _
    have hr : (ins.exec s.slot).1.readPos p.dir = s.slot.readPos p.dir := hm.readPos
    have hle := h.ring.read_le
    rw [hr, Producer.written, hsent, List.take_append_of_le_length (by omega)]
    exact h.received

/-- A step of the reader keeps the invariant. -/
theorem inv_readStep {n : Nat} {pc : ReadPC UInt8} {ins : Instr UInt8 (ReadPC UInt8)}
    (h : Inv p s) (hpc : s.consumer = .reading n pc)
    (hins : p.readNext n pc = some ins) :
    Inv p { s with slot := (ins.exec s.slot).1, consumer := .reading n (ins.exec s.slot).2 } := by
  have hok := h.reading n pc hpc
  have hlen := h.len
  have h0 := h.ring.read_nonneg
  obtain ⟨hm, hok'⟩ := readNext_cases h.ring hok hins
  have hcons := readNext_consumed hins s.slot
  generalize pc.fetched = got at hm hcons
  have hw : (ins.exec s.slot).1.writePos p.dir = s.slot.writePos p.dir := hm.writePos
  have hr : (ins.exec s.slot).1.readPos p.dir = s.slot.readPos p.dir + got.length :=
    hm.readPos h0
  refine ⟨h.ring.of_readerMove hm, hw.trans hlen, ?_, ?_, ?_⟩
  · intro chunk pc' hpc'
    exact WriteCall.Ok.of_readerMove (c := p.writeCall chunk) h.ring hm (h.writing chunk pc' hpc')
  · intro n' pc' hpc'
    obtain ⟨rfl, rfl⟩ := Consumer.reading.inj hpc'
    exact hok'
  · show s.returned ++ (ins.exec s.slot).2.consumed = s.sent.take _
    have hrec : s.returned ++ pc.consumed = s.sent.take (s.slot.readPos p.dir).toNat := by
      have := h.received
      unfold State.received at this
      rw [hpc] at this
      exact this
    rw [hcons, ← List.append_assoc, hrec, hr]
    -- the bytes fetched are those at the read position
    cases hm with
    | quiet hgot _ => rw [hgot]; simp
    | consume hk hP _ =>
      rw [take_append_of_getElem? hP (by omega)]
      congr 1
      omega

theorem start_off (chunk : List UInt8) : ((p.writeCall chunk).loop 0).off = 0 :=
  WriteCall.loop_off _ (Nat.zero_le _)

/-- **Every step keeps the invariant**, as long as fewer than 2^31 bytes have
been sent with it. -/
theorem inv_step {e : Event} (h : Inv p s) (hstep : p.step s e = some s')
    (hfit : p.Fits s e) : Inv p s' := by
  cases step_moved hstep with
  | write chunk hidle =>
    refine h.of_producer (w := s.writes) ?_ ?_
    · unfold State.sent
      rw [hidle, Producer.written, start_off]
      rfl
    · intro chunk' pc hpc
      obtain ⟨rfl, rfl⟩ := Producer.writing.inj hpc
      exact WriteCall.loop_ok ..
  | close hidle =>
    refine h.of_producer (w := s.writes) ?_ (by simp)
    unfold State.sent
    rw [hidle]
    rfl
  | writeStep hpc hins =>
    refine inv_writeStep h hpc hins ?_
    rwa [Fits, State.sending, hpc] at hfit
  | writeReturn hpc =>
    refine h.of_producer ?_ (by simp)
    unfold State.sent
    rw [hpc, List.flatten_append]
    simp [Producer.written, WritePC.off]
  | closeStep hpc hins =>
    refine h.of_sameDir (Closer.step_sameDir hins p.dir s.slot) ?_ rfl (by simp) fun _ _ h => h
    unfold State.sent
    rw [hpc]
    rfl
  | closeReturn hpc =>
    refine h.of_producer (w := s.writes) ?_ (by simp)
    unfold State.sent
    rw [hpc]
    rfl
  | read n hidle =>
    refine h.of_consumer (r := s.reads) ?_ ?_
    · unfold State.received
      rw [hidle, Consumer.consumed, readStart_consumed]
      rfl
    · intro n' pc hpc
      obtain ⟨rfl, rfl⟩ := Consumer.reading.inj hpc
      exact readStart_ok ..
  | readStep hpc hins => exact inv_readStep h hpc hins
  | readReturn hpc =>
    refine h.of_consumer ?_ (by simp)
    unfold State.received State.returned
    rw [hpc]
    simp [Consumer.consumed, ReadPC.consumed]
  | poke l v hw hr =>
    exact h.of_sameDir ⟨Slot.setLane_lane_ne _ _ (Ne.symm hw),
      Slot.setLane_lane_ne _ _ (Ne.symm hr), rfl⟩ rfl rfl (fun _ _ h => h) fun _ _ h => h
  | pokeByte d i b hd =>
    exact h.of_sameDir ⟨rfl, rfl, Slot.setByte_ring_ne _ _ _ (Ne.symm hd)⟩ rfl rfl
      (fun _ _ h => h) fun _ _ h => h

/-- **Every run keeps the invariant**, from a freshly published claim on. -/
theorem inv_run {s₀ : State} {es : List Event} (h0 : p.Init s₀)
    (hrun : Run p.step p.Fits s₀ es s) : Inv p s :=
  hrun.invariant (inv_init h0) fun _ _ _ hi hok hs => inv_step hi hs hok

/-! ## The results -/

/-- **The ring is a lossless queue.** Whatever the capacity, the chunks, the read
sizes and the order of the atomic steps, while fewer than 2^31 bytes are sent
the bytes returned to the reader are the first ones the writer put in, and the
write position is between the read position and a capacity past it. -/
theorem fifo {s₀ : State} {es : List Event} (h0 : p.Init s₀)
    (hrun : Run p.step p.Fits s₀ es s) :
    s.returned <+: s.sent ∧ 0 ≤ s.slot.writePos p.dir - s.slot.readPos p.dir ∧
      s.slot.writePos p.dir - s.slot.readPos p.dir ≤ p.ringCap := by
  have h := inv_run h0 hrun
  have hle := h.ring.read_le
  have hcap' := h.ring.write_le
  refine ⟨?_, by omega, by omega⟩
  have hpre : s.returned <+: s.received := List.prefix_append ..
  refine hpre.trans ?_
  rw [h.received]
  exact List.take_prefix ..

/-- Three bytes into a ring of two, the reader's steps among the writer's. -/
def threeThroughTwo : List Event :=
  [.write [1, 2, 3], .read 5] ++ List.replicate 4 .produce ++ List.replicate 4 .consume ++
    List.replicate 4 .produce ++ List.replicate 16 .consume

theorem fifo_threeThroughTwo : ∃ s : State, s.returned = [1, 2] ∧ s.returned <+: s.sent ∧
    0 ≤ s.slot.writePos .c2w - s.slot.readPos .c2w ∧
    s.slot.writePos .c2w - s.slot.readPos .c2w ≤ 2 := by
  have hex : ((execute (clientToWorker 2 7).step (clientToWorker 2 7).Fits (fresh 7)
      threeThroughTwo).map fun s => decide (s.returned = [1, 2])) = some true := by
    decide +kernel
  obtain ⟨s, hrun, hret⟩ := Run.exists_of_execute hex
  have hfifo := fifo (p := clientToWorker 2 7) (init_fresh ..) hrun
  exact ⟨s, of_decide_eq_true hret, hfifo⟩

/-- The ring arithmetic of both ends is in range: the free space and the
available count a call computes lie in `[0, ringCap]`, the parts of a copy stay
in the ring, and so does every byte index. -/
structure ArithSafe (p : Pipe) (s : State) : Prop where
  free : ∀ chunk off w r, s.producer = .writing chunk (.plan off w r) →
    0 ≤ (p.writeCall chunk).free w r ∧ (p.writeCall chunk).free w r ≤ p.ringCap ∧
      ((p.writeCall chunk).free w r ≠ 0 →
        (span p.ringCap w.toInt ((p.writeCall chunk).size off w r)).Inside p.ringCap)
  writeIndex : ∀ chunk off w k i, s.producer = .writing chunk (.copy off w k i) →
    (span p.ringCap w.toInt k).index i < p.ringCap
  avail : ∀ n w r again, s.consumer = .reading n (.plan w r again) →
    0 ≤ ReadCall.avail w r ∧ ReadCall.avail w r ≤ p.ringCap ∧
      (ReadCall.avail w r ≠ 0 →
        (span p.ringCap r.toInt ((p.readCall n).size w r)).Inside p.ringCap)
  readIndex : ∀ n r k dst, s.consumer = .reading n (.copy r k dst) →
    (span p.ringCap r.toInt k).index dst.length < p.ringCap

theorem Inv.arithSafe (h : Inv p s) : ArithSafe p s := by
  have hr0 := h.ring.read_nonneg
  have hw0 := Int.le_trans hr0 h.ring.read_le
  refine ⟨?_, ?_, ?_, ?_⟩
  · intro chunk off w r hpc
    have hok := h.writing chunk _ hpc
    obtain ⟨hf0, hf1⟩ := WriteCall.free_bounds (c := p.writeCall chunk) h.ring hok
    exact ⟨hf0, hf1, fun hne => (WriteCall.plan_inside (c := p.writeCall chunk) h.ring hok hne).1⟩
  · intro chunk off w k i hpc
    obtain ⟨rfl, hi, hk, -⟩ := h.writing chunk _ hpc
    have hkc : k ≤ p.ringCap := hk
    obtain ⟨x, hx⟩ := Int.eq_ofNat_of_zero_le hw0
    have hwx : (s.slot.lane p.dir.writeLane).toInt = x := hx
    show (span p.ringCap (s.slot.lane p.dir.writeLane).toInt k).index i < p.ringCap
    rw [hwx, span_index hkc hi]
    exact Nat.mod_lt _ (by omega)
  · intro n w r again hpc
    have hok := h.reading n _ hpc
    obtain ⟨ha0, ha1⟩ := ReadCall.avail_bounds (c := p.readCall n) h.ring hok
    exact ⟨ha0, ha1, fun hne => ReadCall.plan_inside (c := p.readCall n) h.ring hok hne⟩
  · intro n r k dst hpc
    obtain ⟨rfl, hlen, -, hk, -⟩ := h.reading n _ hpc
    have hkc : k ≤ p.ringCap := hk
    obtain ⟨x, hx⟩ := Int.eq_ofNat_of_zero_le hr0
    have hrx : (s.slot.lane p.dir.readLane).toInt = x := hx
    show (span p.ringCap (s.slot.lane p.dir.readLane).toInt k).index dst.length < p.ringCap
    rw [hrx, span_index hkc hlen]
    exact Nat.mod_lt _ (by omega)

/-- **The ring arithmetic is safe** for streams of fewer than 2^31 bytes, in both
directions and for both read loops. -/
theorem arith_safe {s₀ : State} {es : List Event} (h0 : p.Init s₀)
    (hrun : Run p.step p.Fits s₀ es s) : ArithSafe p s :=
  (inv_run h0 hrun).arithSafe

theorem arith_safe_threeThroughTwo : ∃ s : State,
    s.producer = .writing [1, 2, 3] (.plan 2 2 0) ∧ ArithSafe (clientToWorker 2 7) s := by
  have hex : ((execute (clientToWorker 2 7).step (clientToWorker 2 7).Fits (fresh 7)
      threeThroughTwo).map fun s => decide (s.producer = .writing [1, 2, 3] (.plan 2 2 0)))
        = some true := by
    decide +kernel
  obtain ⟨s, hrun, hpc⟩ := Run.exists_of_execute hex
  exact ⟨s, of_decide_eq_true hpc, arith_safe (init_fresh ..) hrun⟩

end Haybarn.Sab.Pipe
