import Haybarn.OAuth.AuthUrl

/-!
# Whose authorization code a call returns

All calls share one flag, one payload and one channel, and the page does not know when the
worker gives a call up. `Orderly` says what keeps the calls apart: while a call lasts, the page
begins to write only what its own popup relayed or its own timer says, and no call begins while
the page is about to raise the flag for another one. `auth_delivered` is about the runs whose
steps are all orderly; `late_code` is one that is not.

`Queues` is what holds in every run of the messages between the two sides. `Delivery` is the
invariant of the orderly runs: from the moment the flag says so to the end of the call, the
buffer holds the code of the first callback of the call's own popup.
-/

namespace Haybarn.OAuth

open Haybarn.Lib

variable {s s' : State} {c : Nat}

/-! ## The messages between the worker and the page -/

/-- The callbacks of popup `c`. -/
def callbacksOf (c : Nat) (rs : List (Option Nat × Callback)) :
    List (Option Nat × Callback) := rs.filter fun r => r.1 = some c

theorem callbacksOf_append (c : Nat) (rs rs' : List (Option Nat × Callback)) :
    callbacksOf c (rs ++ rs') = callbacksOf c rs ++ callbacksOf c rs' := List.filter_append ..

theorem update_eq_some {α : Type} {f : Nat → Option α} {k h : Nat} {x : Option α} {z : α}
    (hz : Function.update f k x h = some z) : h = k ∧ x = some z ∨ h ≠ k ∧ f h = some z := by
  by_cases heq : h = k
  · rw [heq, Function.update_self] at hz
    exact .inl ⟨heq, hz⟩
  · rw [Function.update_of_ne heq] at hz
    exact .inr ⟨heq, hz⟩

/-- A message is delivered by a channel that is open. -/
theorem next_handler {h : Nat} {r : Option Nat × Callback} (hr : s.nextMessage h = some r) :
    ∃ x, s.handlers h = some x ∧ x.settled = false ∧ x.inbox.head? = some r := by
  unfold State.nextMessage at hr
  split at hr
  next x hx =>
    split at hr
    · cases hr
    next hsettled =>
      rw [Bool.not_eq_true] at hsettled
      exact ⟨x, hx, hsettled, hr⟩
  next => cases hr

structure Queues (s : State) : Prop where
  current : ∀ c, s.worker.call = some c → c + 1 = s.calls
  posted_lt : ∀ q ∈ s.posted, q < s.calls
  opened_lt : ∀ h, s.handlers h ≠ none → h < s.calls
  posting : ∀ c t, s.worker = .posting c t → (∀ q ∈ s.posted, q < c) ∧
    ∀ h, s.handlers h ≠ none → h < c
  fifo : s.posted.Pairwise (· < ·)
  opened : ∀ h, s.handlers h ≠ none → ∀ q ∈ s.posted, h < q
  relayed : ∀ c m, (some c, m) ∈ s.relayed → s.handlers c ≠ none
  /-- An open channel has the callbacks of its own and of every later popup. -/
  inbox : ∀ h x, s.handlers h = some x → x.settled = false → ∀ c, h ≤ c →
    callbacksOf c x.inbox = callbacksOf c s.relayed

namespace Queues

theorem initial : Queues State.initial where
  current _ h := by cases h
  posted_lt _ h := by cases h
  opened_lt _ h := absurd rfl h
  posting _ _ h := by cases h
  fifo := .nil
  opened _ h := absurd rfl h
  relayed _ _ h := by cases h
  inbox _ _ h := by cases h

/-- The messages are as they were, and the worker is in the same call, or in none. -/
theorem of_same (hq : Queues s) (hcalls : s'.calls = s.calls) (hposted : s'.posted = s.posted)
    (hhandlers : s'.handlers = s.handlers) (hrelayed : s'.relayed = s.relayed)
    (hcall : s'.worker.call = s.worker.call ∨ s'.worker.call = none)
    (hposting : ∀ c t, s'.worker = .posting c t → s.worker = .posting c t) : Queues s' where
  current c hc := by
    rw [hcalls]
    obtain he | he := hcall
    · exact hq.current c (he ▸ hc)
    · rw [he] at hc
      cases hc
  posted_lt := by
    rw [hposted, hcalls]
    exact hq.posted_lt
  opened_lt := by
    rw [hhandlers, hcalls]
    exact hq.opened_lt
  posting c t h := by
    rw [hposted, hhandlers]
    exact hq.posting c t (hposting c t h)
  fifo := by
    rw [hposted]
    exact hq.fifo
  opened := by
    rw [hhandlers, hposted]
    exact hq.opened
  relayed := by
    rw [hhandlers, hrelayed]
    exact hq.relayed
  inbox := by
    rw [hhandlers, hrelayed]
    exact hq.inbox

theorem beginCall (hq : Queues s) (timeout : Int) : Queues (s.beginCall timeout) where
  current c hc := by
    obtain rfl := Option.some.inj hc
    rfl
  posted_lt q hmem := by
    have hlt := hq.posted_lt q hmem
    show q < s.calls + 1
    omega
  opened_lt h hopen := by
    have hlt := hq.opened_lt h hopen
    show h < s.calls + 1
    omega
  posting c t h := by
    obtain ⟨rfl, -⟩ := Worker.posting.inj h
    exact ⟨hq.posted_lt, hq.opened_lt⟩
  fifo := hq.fifo
  opened := hq.opened
  relayed := hq.relayed
  inbox := hq.inbox

theorem post {t : Int} (hq : Queues s) (hw : s.worker = .posting c t) :
    Queues { s with posted := s.posted ++ [c], worker := .polling c t 0 } := by
  obtain ⟨hposted, hopened⟩ := hq.posting c t hw
  have hc : c + 1 = s.calls := hq.current c (by rw [hw]; rfl)
  have hpairs : (s.posted ++ [c]).Pairwise (· < ·) := by
    refine List.pairwise_append.mpr ⟨hq.fifo, List.pairwise_singleton _ _, fun q hmem q' hmem' => ?_⟩
    obtain rfl := List.mem_singleton.mp hmem'
    exact hposted q hmem
  refine { hq with current := ?_, posted_lt := ?_, posting := nofun, fifo := hpairs, opened := ?_ }
  · intro c' h
    obtain rfl := Option.some.inj h
    exact hc
  · intro q hmem
    obtain hmem | hmem := List.mem_append.mp hmem
    · exact hq.posted_lt q hmem
    · obtain rfl := List.mem_singleton.mp hmem
      show q < s.calls
      omega
  · intro h hopen q hmem
    obtain hmem | hmem := List.mem_append.mp hmem
    · exact hq.opened h hopen q hmem
    · obtain rfl := List.mem_singleton.mp hmem
      exact hopened h hopen

theorem work (hq : Queues s) {ok : Bool} (h : s.work ok = some s') : Queues s' := by
  unfold State.work at h
  split at h
  next => cases h
  next => cases h
  next c t hw =>
    obtain rfl := Option.some.inj h
    exact hq.post hw
  next c t e hw =>
    obtain rfl := Option.some.inj h
    refine hq.of_same rfl rfl rfl rfl (.inl ?_) fun c' t' h => ?_
    · rw [hw]
      dsimp only
      split <;> rfl
    · dsimp only at h
      split at h <;> cases h
  next c t e hw =>
    obtain rfl := Option.some.inj h
    refine hq.of_same rfl rfl rfl rfl (.inl ?_) fun c' t' h => ?_
    · rw [hw]
      dsimp only
      split <;> rfl
    · dsimp only at h
      split at h <;> cases h
  next c hw =>
    obtain rfl := Option.some.inj h
    exact hq.of_same rfl rfl rfl rfl (.inl (by rw [hw]; rfl)) nofun
  next c flag hw =>
    obtain rfl := Option.some.inj h
    unfold State.measure
    split
    · exact hq.of_same rfl rfl rfl rfl (.inr rfl) nofun
    · split
      · exact hq.of_same rfl rfl rfl rfl (.inl (by rw [hw]; rfl)) nofun
      · exact hq.of_same rfl rfl rfl rfl (.inr rfl) nofun
  next c flag len got hw =>
    obtain rfl := Option.some.inj h
    unfold State.copy
    dsimp only
    split
    · exact hq.of_same rfl rfl rfl rfl (.inl (by rw [hw]; rfl)) nofun
    · exact hq.of_same rfl rfl rfl rfl (.inr rfl) nofun

theorem timedOut (hq : Queues s) (h : s.timedOut = some s') : Queues s' := by
  unfold State.timedOut at h
  split at h
  next c t e hw =>
    split at h
    · obtain rfl := Option.some.inj h
      exact hq.of_same rfl rfl rfl rfl (.inr rfl) nofun
    · obtain rfl := Option.some.inj h
      exact hq.of_same rfl rfl rfl rfl (.inl (by rw [hw]; rfl)) nofun
  next => cases h

/-- The page opens the popup of the first message, or cannot. -/
theorem openPopup (hq : Queues s) {ok : Bool} (h : s.openPopup ok = some s') : Queues s' := by
  unfold State.openPopup at h
  split at h
  next _ c rest _ hposted =>
    have hfifo := hq.fifo
    rw [hposted] at hfifo
    obtain ⟨hlater, hrest⟩ := List.pairwise_cons.mp hfifo
    have hmem : ∀ q ∈ rest, q ∈ s.posted := by
      intro q hq
      rw [hposted]
      exact List.mem_cons_of_mem _ hq
    have hc : c ∈ s.posted := by
      rw [hposted]
      exact List.mem_cons_self
    have hq' : Queues { s with posted := rest } := { hq with
      posted_lt := fun q hin => hq.posted_lt q (hmem q hin)
      posting := fun c t hw =>
        ⟨fun q hin => (hq.posting c t hw).1 q (hmem q hin), (hq.posting c t hw).2⟩
      fifo := hrest
      opened := fun h hopen q hin => hq.opened h hopen q (hmem q hin) }
    dsimp only at h
    split at h
    · obtain rfl := Option.some.inj h
      have hcases : ∀ h, Function.update s.handlers c (some { inbox := [], settled := false }) h ≠
          none → h = c ∨ s.handlers h ≠ none := by
        intro h hopen
        by_cases heq : h = c
        · exact .inl heq
        · rw [Function.update_of_ne heq] at hopen
          exact .inr hopen
      refine { hq' with opened_lt := ?_, posting := ?_, opened := ?_, relayed := ?_, inbox := ?_ }
      · intro h hopen
        obtain rfl | hopen := hcases h hopen
        · exact hq.posted_lt _ hc
        · exact hq.opened_lt h hopen
      · intro c' t hw
        obtain ⟨hbefore, hopened⟩ := hq'.posting c' t hw
        refine ⟨hbefore, fun h hopen => ?_⟩
        obtain rfl | hopen := hcases h hopen
        · exact (hq.posting c' t hw).1 _ hc
        · exact hopened h hopen
      · intro h hopen q hin
        obtain rfl | hopen := hcases h hopen
        · exact hlater q hin
        · exact hq'.opened h hopen q hin
      · intro c' m hin
        show Function.update s.handlers c _ c' ≠ none
        by_cases heq : c' = c
        · rw [heq, Function.update_self]
          exact Option.some_ne_none _
        · rw [Function.update_of_ne heq]
          exact hq.relayed c' m hin
      · intro k x hx hopen c' hle
        obtain ⟨rfl, hnew⟩ | ⟨-, hold⟩ := update_eq_some hx
        · -- no popup from this one on has relayed anything
          obtain rfl := Option.some.inj hnew
          refine (List.filter_eq_nil_iff.mpr fun r hr hfrom => ?_).symm
          obtain ⟨p, m⟩ := r
          obtain rfl := of_decide_eq_true hfrom
          have hlt := hq.opened c' (hq.relayed c' m hr) k hc
          omega
        · exact hq.inbox k x hold hopen c' hle
    · obtain rfl := Option.some.inj h
      exact { hq' with }
  next => cases h

theorem relay (hq : Queues s) {popup : Option Nat} {m : Callback}
    (h : s.relay popup m = some s') : Queues s' := by
  unfold State.relay at h
  split at h
  next hpopup =>
    obtain rfl := Option.some.inj h
    have hopened : ∀ h, (s.handlers h).map (Handler.receive (popup, m)) ≠ none →
        s.handlers h ≠ none := by
      intro h hopen hnone
      rw [hnone] at hopen
      exact hopen rfl
    refine { hq with opened_lt := ?_, posting := ?_, opened := ?_, relayed := ?_, inbox := ?_ }
    · exact fun h hopen => hq.opened_lt h (hopened h hopen)
    · intro c t hw
      obtain ⟨hbefore, hlt⟩ := hq.posting c t hw
      exact ⟨hbefore, fun h hopen => hlt h (hopened h hopen)⟩
    · exact fun h hopen => hq.opened h (hopened h hopen)
    · intro c m' hin
      have hc : s.handlers c ≠ none := by
        obtain hold | hnew := List.mem_append.mp hin
        · exact hq.relayed c m' hold
        · obtain ⟨rfl, -⟩ := Prod.mk.inj (List.mem_singleton.mp hnew)
          intro hnone
          rw [Option.all_some, hnone] at hpopup
          cases hpopup
      intro hnone
      exact hc (Option.map_eq_none_iff.mp hnone)
    · intro h x hx hopen c hle
      obtain ⟨x₀, hx₀, rfl⟩ := Option.map_eq_some_iff.mp hx
      unfold Handler.receive at hopen ⊢
      split at hopen
      next hsettled =>
        rw [hsettled] at hopen
        cases hopen
      next hsettled =>
        rw [if_neg hsettled, callbacksOf_append, callbacksOf_append,
          hq.inbox h x₀ hx₀ hopen c hle]
  next => cases h

theorem settle (hq : Queues s) {h : Nat} {x : Handler} (hx : s.handlers h = some x) (w : Write) :
    Queues (s.settle h w) := by
  have hopened : ∀ k, (s.settle h w).handlers k ≠ none → s.handlers k ≠ none := by
    intro k hopen
    by_cases heq : k = h
    · rw [heq, hx]
      exact Option.some_ne_none x
    · have hsame : (s.settle h w).handlers k = s.handlers k := Function.update_of_ne heq _ _
      rw [hsame] at hopen
      exact hopen
  refine { hq with opened_lt := ?_, posting := ?_, opened := ?_, relayed := ?_, inbox := ?_ }
  · exact fun k hopen => hq.opened_lt k (hopened k hopen)
  · intro c t hw
    obtain ⟨hbefore, hlt⟩ := hq.posting c t hw
    exact ⟨hbefore, fun k hopen => hlt k (hopened k hopen)⟩
  · exact fun k hopen => hq.opened k (hopened k hopen)
  · intro c m hin
    show Function.update s.handlers h _ c ≠ none
    by_cases heq : c = h
    · rw [heq, Function.update_self]
      exact Option.some_ne_none _
    · rw [Function.update_of_ne heq]
      exact hq.relayed c m hin
  · intro k y hy hopen c hle
    obtain ⟨-, hnew⟩ | ⟨-, hold⟩ := update_eq_some hy
    · obtain rfl := Option.some.inj hnew
      cases hopen
    · exact hq.inbox k y hold hopen c hle

theorem message (hq : Queues s) {h : Nat} (hs : s.message h = some s') : Queues s' := by
  unfold State.message at hs
  split at hs
  next popup m _ hr =>
    obtain rfl := Option.some.inj hs
    obtain ⟨x, hx, -, -⟩ := next_handler hr
    exact hq.settle hx _
  next => cases hs

theorem timer (hq : Queues s) {h : Nat} (hs : s.timer h = some s') : Queues s' := by
  unfold State.timer at hs
  split at hs
  next x _ hx =>
    split at hs
    · cases hs
    · obtain rfl := Option.some.inj hs
      exact hq.settle hx _
  next => cases hs

theorem store (hq : Queues s) (hs : s.store = some s') : Queues s' := by
  unfold State.store at hs
  split at hs
  · cases hs
  · split at hs
    · obtain rfl := Option.some.inj hs
      exact hq.of_same rfl rfl rfl rfl (.inl rfl) fun _ _ hw => hw
    · split at hs
      · obtain rfl := Option.some.inj hs
        unfold State.notify
        split
        next c t e hw =>
          exact hq.of_same rfl rfl rfl rfl (.inl (by rw [hw]; rfl)) nofun
        next => exact hq.of_same rfl rfl rfl rfl (.inl rfl) fun _ _ hw => hw
      · obtain rfl := Option.some.inj hs
        exact hq.of_same rfl rfl rfl rfl (.inl rfl) fun _ _ hw => hw

theorem step {ev : Event} (hq : Queues s) (h : step s ev = some s') : Queues s' := by
  cases ev with
  | call timeout =>
    rw [OAuth.step, Option.ite_none_right_eq_some] at h
    obtain ⟨-, h⟩ := h
    obtain rfl := Option.some.inj h
    exact hq.beginCall timeout
  | work ok => exact hq.work h
  | timedOut => exact hq.timedOut h
  | popup ok => exact hq.openPopup h
  | relay popup m => exact hq.relay h
  | message k => exact hq.message h
  | timer k => exact hq.timer h
  | store => exact hq.store h

end Queues

/-! ## The payload -/

/-- The buffer holds the bytes. -/
def Payload (sab : Sab) (bytes : List UInt8) : Prop :=
  sab.len = bytes.length ∧ ∀ (i : Nat) (b : UInt8), bytes[i]? = some b → sab.bytes i = b

/-- A store that belongs to the bytes. -/
def Fits (bytes : List UInt8) : Store → Prop
  | .len n => n = bytes.length
  | .byte i b => bytes[i]? = some b

/-- Once the stores that are left are done, the buffer holds the bytes. -/
def Pending (sab : Sab) (bytes : List UInt8) (data : List Store) : Prop :=
  (∀ d ∈ data, Fits bytes d) ∧ Payload (data.foldl Sab.store sab) bytes

variable {sab : Sab} {bytes : List UInt8} {data : List Store} {d : Store}

@[simp] theorem store_flag (sab : Sab) (d : Store) : (sab.store d).flag = sab.flag := by
  cases d <;> rfl

/-- Storing once more what is there changes nothing. -/
theorem Payload.store (hp : Payload sab bytes) (hd : Fits bytes d) :
    Payload (sab.store d) bytes := by
  cases d with
  | len n => exact ⟨hd, hp.2⟩
  | byte i b =>
    refine ⟨hp.1, fun j b' hj => ?_⟩
    show Function.update sab.bytes i b j = b'
    by_cases heq : j = i
    · subst heq
      rw [Function.update_self]
      have hb : bytes[j]? = some b := hd
      rw [hb] at hj
      exact Option.some.inj hj
    · rw [Function.update_of_ne heq]
      exact hp.2 j b' hj

/-- What is there, or is still to be stored, will be there. -/
theorem payload_foldl (hfits : ∀ d ∈ data, Fits bytes d)
    (hlen : sab.len = bytes.length ∨ .len bytes.length ∈ data)
    (hbytes : ∀ (i : Nat) (b : UInt8), bytes[i]? = some b →
      sab.bytes i = b ∨ .byte i b ∈ data) : Payload (data.foldl Sab.store sab) bytes := by
  induction data generalizing sab with
  | nil =>
    refine ⟨?_, fun i b hb => ?_⟩
    · obtain hlen | hmem := hlen
      · exact hlen
      · cases hmem
    · obtain hat | hmem := hbytes i b hb
      · exact hat
      · cases hmem
  | cons d data ih =>
    have hd := hfits d List.mem_cons_self
    rw [List.foldl_cons]
    refine ih (fun d' hd' => hfits d' (List.mem_cons_of_mem _ hd')) ?_ fun i b hb => ?_
    · obtain hlen | hmem := hlen
      · cases d with
        | len n => exact .inl hd
        | byte i b => exact .inl hlen
      · obtain rfl | hmem := List.mem_cons.mp hmem
        · exact .inl rfl
        · exact .inr hmem
    · obtain hat | hmem := hbytes i b hb
      · cases d with
        | len n => exact .inl hat
        | byte j b' =>
          left
          show Function.update sab.bytes j b' i = b
          by_cases heq : i = j
          · subst heq
            have hb' : bytes[i]? = some b' := hd
            rw [hb] at hb'
            rw [Function.update_self]
            exact (Option.some.inj hb').symm
          · rw [Function.update_of_ne heq]
            exact hat
      · obtain rfl | hmem := List.mem_cons.mp hmem
        · exact .inl (Function.update_self ..)
        · exact .inr hmem

theorem mem_byteStores {d : Store} :
    d ∈ byteStores bytes ↔ ∃ (i : Nat) (b : UInt8), bytes[i]? = some b ∧ d = .byte i b := by
  unfold byteStores
  rw [List.mem_mapIdx]
  constructor
  · rintro ⟨i, hi, rfl⟩
    exact ⟨i, bytes[i], List.getElem?_eq_getElem hi, rfl⟩
  · rintro ⟨i, b, hb, rfl⟩
    obtain ⟨hi, rfl⟩ := List.getElem?_eq_some_iff.mp hb
    exact ⟨i, hi, rfl⟩

/-- A payload that is not cut off will be there. -/
theorem pending_payloadStores {payload : String}
    (hshort : (textEncode payload).length ≤ maxBytes) :
    Pending sab (textEncode payload) (payloadStores payload) := by
  unfold payloadStores
  dsimp only
  rw [if_neg (by omega)]
  have hfits : ∀ d ∈ Store.len (textEncode payload).length :: byteStores (textEncode payload),
      Fits (textEncode payload) d := by
    intro d hd
    obtain rfl | hd := List.mem_cons.mp hd
    · rfl
    · obtain ⟨i, b, hb, rfl⟩ := mem_byteStores.mp hd
      exact hb
  refine ⟨hfits, payload_foldl hfits (.inr List.mem_cons_self) fun i b hb => .inr ?_⟩
  exact List.mem_cons_of_mem _ (mem_byteStores.mpr ⟨i, b, hb, rfl⟩)

theorem Pending.store (hp : Pending sab bytes (d :: data)) : Pending (sab.store d) bytes data :=
  ⟨fun d' hd' => hp.1 d' (List.mem_cons_of_mem _ hd'), hp.2⟩

/-! ## One call -/

/-- The callback is the first one of popup `c`, and brings a code. -/
def Brings (rs : List (Option Nat × Callback)) (c : Nat) (m : Callback) : Prop :=
  (callbacksOf c rs).head? = some (some c, m) ∧ m.code ≠ ""

/-- A write that is meant for call `c`, or cannot be told apart from one. -/
def Origin.For (c : Nat) : Origin → Prop
  | .callback popup _ => popup = some c ∨ popup = none
  | .timeout call => call = c
  | .blocked _ => True

/-- What the worker has seen of the buffer. -/
def Progress (s : State) (c : Nat) : Prop :=
  match s.worker with
  | .ended _ => s.sab.flag ≠ 0
  | .measuring _ flag => flag = -1 ∨ flag = 1 ∧ s.sab.flag = 1
  | .copying _ flag len got => flag = -1 ∨ flag = 1 ∧ s.sab.flag = 1 ∧
      ∃ m, Brings s.relayed c m ∧ len = (textEncode m.code).length ∧
        got = (textEncode m.code).take got.length ∧ got.length < len
  | _ => True

/-- What the write in progress will leave in the buffer. -/
def WriteFor (s : State) (c : Nat) (w : Write) : Prop :=
  w.origin.For c ∧ (w.flag = -1 ∧ s.sab.flag ≠ 1 ∨
    w.flag = 1 ∧ ∃ m, Brings s.relayed c m ∧ Pending s.sab (textEncode m.code) w.data)

structure InCall (s : State) (c : Nat) : Prop where
  blame : s.sab.flag ≠ 0 → ∃ o, s.flagBy = some o ∧ o.For c
  code : s.sab.flag = 1 → ∃ m, Brings s.relayed c m ∧ Payload s.sab (textEncode m.code)
  write : ∀ w, s.writing = some w → w.raised = false → WriteFor s c w
  progress : Progress s c

structure Delivery (s : State) : Prop where
  flag : s.sab.flag = 0 ∨ s.sab.flag = 1 ∨ s.sab.flag = -1
  writes : ∀ w, s.writing = some w →
    (w.flag = 1 ∨ w.flag = -1) ∧ (w.origin.isBlocked = true → w.flag = -1)
  raised : ∀ w, s.writing = some w → w.raised = true → w.data = []
  short : ∀ r ∈ s.relayed, (textEncode r.2.code).length ≤ maxBytes
  call : ∀ c, s.worker.call = some c → InCall s c
  returned : ∀ c code, (c, some code) ∈ s.returned →
    ∃ m, (some c, m) ∈ s.relayed ∧ m.code ≠ "" ∧ code = textEncode m.code

/-- What keeps the calls apart, before each step. -/
def Orderly (s : State) : Event → Prop
  | .call _ => s.writing.all (fun w => w.raised || w.origin.isBlocked) = true
  | .relay _ m => (textEncode m.code).length ≤ maxBytes
  | .message h =>
    match s.worker.call, s.nextMessage h with
    | some c, some (popup, m) => popup = some c ∨ popup = none ∧ m.code = "" ∧ s.sab.flag ≠ 1
    | _, _ => True
  | .timer h =>
    match s.worker.call with
    | some c => h = c ∧ s.sab.flag ≠ 1
    | none => True
  | _ => True

theorem Brings.unique {rs : List (Option Nat × Callback)} {m m' : Callback} (h : Brings rs c m)
    (h' : (callbacksOf c rs).head? = some (some c, m')) : m' = m := by
  have he := h.1.symm.trans h'
  exact (Prod.mk.inj (Option.some.inj he)).2.symm

theorem Brings.mem {rs : List (Option Nat × Callback)} {m : Callback} (h : Brings rs c m) :
    (some c, m) ∈ rs := (List.mem_filter.mp (List.mem_of_head? h.1)).1

theorem Brings.append {rs rs' : List (Option Nat × Callback)} {m : Callback}
    (h : Brings rs c m) : Brings (rs ++ rs') c m := by
  refine ⟨?_, h.2⟩
  rw [callbacksOf_append, List.head?_append, h.1]
  rfl

namespace InCall

/-- Nothing changes for the buffer, and the worker goes on in the same call. -/
theorem of_same (hi : InCall s c) (hsab : s'.sab = s.sab) (hby : s'.flagBy = s.flagBy)
    (hwriting : s'.writing = s.writing) (hrelayed : s'.relayed = s.relayed)
    (hprogress : Progress s' c) : InCall s' c where
  blame := by
    rw [hsab, hby]
    exact hi.blame
  code := by
    rw [hsab, hrelayed]
    exact hi.code
  write := by
    unfold WriteFor
    rw [hwriting, hsab, hrelayed]
    exact hi.write
  progress := hprogress

end InCall

namespace Delivery

theorem initial : Delivery State.initial where
  flag := .inl rfl
  writes _ h := by cases h
  raised _ h := by cases h
  short _ h := by cases h
  call _ h := by cases h
  returned _ _ h := by cases h

/-- Only the worker moves: it stays in its call, or leaves it. -/
theorem of_worker (hd : Delivery s) (hsab : s'.sab = s.sab) (hby : s'.flagBy = s.flagBy)
    (hwriting : s'.writing = s.writing) (hrelayed : s'.relayed = s.relayed)
    (hcall : ∀ c, s'.worker.call = some c → s.worker.call = some c ∧ Progress s' c)
    (hreturned : ∀ c code, (c, some code) ∈ s'.returned → (c, some code) ∈ s.returned ∨
      ∃ m, (some c, m) ∈ s.relayed ∧ m.code ≠ "" ∧ code = textEncode m.code) : Delivery s' where
  flag := by
    rw [hsab]
    exact hd.flag
  writes := by
    rw [hwriting]
    exact hd.writes
  raised := by
    rw [hwriting]
    exact hd.raised
  short := by
    rw [hrelayed]
    exact hd.short
  call c hc := by
    obtain ⟨hold, hprogress⟩ := hcall c hc
    exact (hd.call c hold).of_same hsab hby hwriting hrelayed hprogress
  returned c code hmem := by
    rw [hrelayed]
    obtain hold | hnew := hreturned c code hmem
    · exact hd.returned c code hold
    · exact hnew

/-- The worker goes on in its call. -/
theorem of_progress (hd : Delivery s) {w : Worker} (hcall : w.call = s.worker.call)
    (hprogress : ∀ c, w.call = some c → Progress { s with worker := w } c) :
    Delivery { s with worker := w } :=
  hd.of_worker rfl rfl rfl rfl (fun c hc => ⟨hcall ▸ hc, hprogress c hc⟩) fun _ _ h => .inl h

/-- A call returns without a code. -/
theorem ret_none (hd : Delivery s) (c : Nat) : Delivery (s.ret c none) := by
  refine hd.of_worker rfl rfl rfl rfl (fun c' h => ?_) fun c' code hmem => .inl ?_
  · cases h
  · obtain hold | hnew := List.mem_append.mp hmem
    · exact hold
    · cases List.mem_singleton.mp hnew

theorem measure (hd : Delivery s) {flag : Int} {ok : Bool}
    (hw : s.worker = .measuring c flag) : Delivery (s.measure c flag ok) := by
  have hi := hd.call c (by rw [hw]; rfl)
  have hprogress := hi.progress
  unfold Progress at hprogress
  rw [hw] at hprogress
  unfold State.measure
  split
  · exact hd.ret_none c
  next hlen =>
    split
    · refine hd.of_progress (by rw [hw]; rfl) fun c' hc => ?_
      obtain rfl := Option.some.inj hc
      show _ ∨ _
      obtain hminus | ⟨hone, hflag⟩ := hprogress
      · exact .inl hminus
      · obtain ⟨m, hm, hpayload⟩ := hi.code hflag
        refine .inr ⟨hone, hflag, m, hm, hpayload.1, rfl, ?_⟩
        show 0 < s.sab.len
        omega
    · exact hd.ret_none c

theorem take_concat {bytes : List UInt8} {n : Nat} (hn : n < bytes.length) :
    bytes.take n ++ [bytes[n]] = bytes.take (n + 1) := by
  rw [List.take_add_one, List.getElem?_eq_getElem hn]
  rfl

theorem copy (hd : Delivery s) {flag : Int} {len : Nat} {got : List UInt8}
    (hw : s.worker = .copying c flag len got) : Delivery (s.copy c flag len got) := by
  have hi := hd.call c (by rw [hw]; rfl)
  have hprogress := hi.progress
  unfold Progress at hprogress
  rw [hw] at hprogress
  unfold State.copy
  dsimp only
  obtain rfl | ⟨rfl, hflag, m, hm, rfl, hgot, hlt⟩ := hprogress
  · split
    · exact hd.of_progress (by rw [hw]; rfl) fun c' _ => .inl rfl
    · rw [if_pos rfl]
      exact hd.ret_none c
  · -- the byte copied is the next one of the code
    obtain ⟨m', hm', hpayload⟩ := hi.code hflag
    obtain rfl := hm.unique hm'.1
    have hbyte : s.sab.bytes got.length = (textEncode m'.code)[got.length] :=
      hpayload.2 _ _ (List.getElem?_eq_getElem hlt)
    have hnext : got ++ [s.sab.bytes got.length] =
        (textEncode m'.code).take (got.length + 1) := by
      rw [hbyte, ← take_concat hlt, ← hgot]
    have hlen : (got ++ [s.sab.bytes got.length]).length = got.length + 1 := by
      rw [List.length_append, List.length_singleton]
    split
    next hmore =>
      refine hd.of_progress (by rw [hw]; rfl) fun c' hc => ?_
      obtain rfl := Option.some.inj hc
      refine .inr ⟨rfl, hflag, m', hm, rfl, ?_, hmore⟩
      rw [hlen]
      exact hnext
    next hlast =>
      rw [if_neg (by omega)]
      have hall : got ++ [s.sab.bytes got.length] = textEncode m'.code := by
        rw [hnext, List.take_of_length_le]
        omega
      rw [hall]
      refine hd.of_worker rfl rfl rfl rfl (fun c' h => ?_) fun c' code hmem => ?_
      · cases h
      · obtain hold | hnew := List.mem_append.mp hmem
        · exact .inl hold
        · obtain ⟨rfl, hcode⟩ := Prod.mk.inj (List.mem_singleton.mp hnew)
          exact .inr ⟨m', hm.mem, hm.2, Option.some.inj hcode⟩

theorem work (hd : Delivery s) {ok : Bool} (h : s.work ok = some s') : Delivery s' := by
  unfold State.work at h
  split at h
  next => cases h
  next => cases h
  next c t hw =>
    obtain rfl := Option.some.inj h
    refine hd.of_worker rfl rfl rfl rfl (fun c' hc => ⟨?_, trivial⟩) fun _ _ h => .inl h
    rw [hw]
    exact hc
  next c t e hw =>
    obtain rfl := Option.some.inj h
    refine hd.of_progress ?_ fun c' _ => ?_
    · rw [hw]
      split <;> rfl
    · unfold Progress
      dsimp only
      split
      next hif =>
        split at hif
        · cases hif
        next hne => exact hne
      next hif => split at hif <;> cases hif
      next hif => split at hif <;> cases hif
      next => trivial
  next c t e hw =>
    obtain rfl := Option.some.inj h
    refine hd.of_progress ?_ fun c' _ => ?_
    · rw [hw]
      split <;> rfl
    · split <;> trivial
  next c hw =>
    obtain rfl := Option.some.inj h
    refine hd.of_progress (by rw [hw]; rfl) fun c' hc => ?_
    have hprogress := (hd.call c (by rw [hw]; rfl)).progress
    unfold Progress at hprogress
    rw [hw] at hprogress
    obtain hzero | hone | hminus := hd.flag
    · exact absurd hzero hprogress
    · exact .inr ⟨hone, hone⟩
    · exact .inl hminus
  next c flag hw =>
    obtain rfl := Option.some.inj h
    exact hd.measure hw
  next c flag len got hw =>
    obtain rfl := Option.some.inj h
    exact hd.copy hw

theorem timedOut (hd : Delivery s) (h : s.timedOut = some s') : Delivery s' := by
  unfold State.timedOut at h
  split at h
  next c t e hw =>
    split at h
    · obtain rfl := Option.some.inj h
      exact hd.ret_none c
    · obtain rfl := Option.some.inj h
      exact hd.of_progress (by rw [hw]; rfl) fun _ _ => trivial
  next => cases h

/-- A new call: the flag is cleared, and nothing that could raise it for another is under
way. -/
theorem beginCall (hd : Delivery s) {timeout : Int} (hok : Orderly s (.call timeout)) :
    Delivery (s.beginCall timeout) where
  flag := .inl rfl
  writes := hd.writes
  raised := hd.raised
  short := hd.short
  call c hc := by
    obtain rfl := Option.some.inj hc
    refine ⟨fun hne => absurd rfl hne, fun hone => ?_, fun w hw hraised => ?_, trivial⟩
    · cases hone
    · have hw' : s.writing = some w := hw
      have hfree : (w.raised || w.origin.isBlocked) = true := by
        unfold Orderly at hok
        rw [hw'] at hok
        exact hok
      rw [hraised, Bool.false_or] at hfree
      refine ⟨?_, .inl ⟨(hd.writes w hw').2 hfree, ?_⟩⟩
      · unfold Origin.isBlocked at hfree
        split at hfree
        next horigin =>
          rw [horigin]
          trivial
        next => cases hfree
      · show (0 : Int) ≠ 1
        omega
  returned := hd.returned

/-- The page begins to write. -/
theorem of_write (hd : Delivery s) {w : Write} (hsab : s'.sab = s.sab) (hby : s'.flagBy = s.flagBy)
    (hworker : s'.worker = s.worker) (hrelayed : s'.relayed = s.relayed)
    (hreturned : s'.returned = s.returned) (hwriting : s'.writing = some w)
    (hflag : (w.flag = 1 ∨ w.flag = -1) ∧ (w.origin.isBlocked = true → w.flag = -1))
    (hraised : w.raised = false)
    (hfor : ∀ c, s.worker.call = some c → WriteFor s c w) : Delivery s' where
  flag := by
    rw [hsab]
    exact hd.flag
  writes w' hw' := by
    rw [hwriting] at hw'
    obtain rfl := Option.some.inj hw'
    exact hflag
  raised w' hw' hr := by
    rw [hwriting] at hw'
    obtain rfl := Option.some.inj hw'
    rw [hraised] at hr
    cases hr
  short := by
    rw [hrelayed]
    exact hd.short
  call c hc := by
    rw [hworker] at hc
    have hi := hd.call c hc
    refine ⟨?_, ?_, fun w' hw' _ => ?_, ?_⟩
    · rw [hsab, hby]
      exact hi.blame
    · rw [hsab, hrelayed]
      exact hi.code
    · rw [hwriting] at hw'
      obtain rfl := Option.some.inj hw'
      unfold WriteFor
      rw [hsab, hrelayed]
      exact hfor c hc
    · have hprogress := hi.progress
      unfold Progress at hprogress ⊢
      rw [hworker, hsab, hrelayed]
      exact hprogress
  returned := by
    rw [hreturned, hrelayed]
    exact hd.returned

/-- While a call has its code, its popup has been opened, and no message waits for the page. -/
theorem posted_nil (hd : Delivery s) (hq : Queues s) (hc : s.worker.call = some c)
    (hflag : s.sab.flag = 1) : s.posted = [] := by
  obtain ⟨m, hm, -⟩ := (hd.call c hc).code hflag
  have hopen := hq.relayed c m hm.mem
  refine List.eq_nil_iff_forall_not_mem.mpr fun q hmem => ?_
  have hlt := hq.opened c hopen q hmem
  have hq' := hq.posted_lt q hmem
  have hcur := hq.current c hc
  omega

theorem openPopup (hd : Delivery s) (hq : Queues s) {ok : Bool}
    (h : s.openPopup ok = some s') : Delivery s' := by
  unfold State.openPopup at h
  split at h
  next _ q rest hnone hposted =>
    dsimp only at h
    split at h
    · obtain rfl := Option.some.inj h
      refine { hd with call := fun c hc => ?_ }
      exact (hd.call c hc).of_same rfl rfl rfl rfl (hd.call c hc).progress
    · obtain rfl := Option.some.inj h
      refine hd.of_write rfl rfl rfl rfl rfl rfl ⟨.inr rfl, fun _ => rfl⟩ rfl fun c hc => ?_
      refine ⟨trivial, .inl ⟨rfl, fun hflag => ?_⟩⟩
      rw [hd.posted_nil hq hc hflag] at hposted
      cases hposted
  next => cases h

theorem relay (hd : Delivery s) {popup : Option Nat} {m : Callback}
    (hok : Orderly s (.relay popup m)) (h : s.relay popup m = some s') : Delivery s' := by
  unfold State.relay at h
  split at h
  · obtain rfl := Option.some.inj h
    refine { hd with short := ?_, call := ?_, returned := ?_ }
    · intro r hr
      obtain hold | hnew := List.mem_append.mp hr
      · exact hd.short r hold
      · obtain rfl := List.mem_singleton.mp hnew
        exact hok
    · intro c hc
      have hi := hd.call c hc
      refine ⟨hi.blame, fun hflag => ?_, fun w hw hraised => ?_, ?_⟩
      · obtain ⟨m', hm', hpayload⟩ := hi.code hflag
        exact ⟨m', hm'.append, hpayload⟩
      · obtain ⟨hfor, herr | ⟨hflag, m', hm', hpending⟩⟩ := hi.write w hw hraised
        · exact ⟨hfor, .inl herr⟩
        · exact ⟨hfor, .inr ⟨hflag, m', hm'.append, hpending⟩⟩
      · have hprogress := hi.progress
        unfold Progress at hprogress ⊢
        dsimp only
        split
        next hw =>
          rw [hw] at hprogress
          exact hprogress
        next hw =>
          rw [hw] at hprogress
          exact hprogress
        next hw =>
          rw [hw] at hprogress
          obtain hminus | ⟨hone, hflag, m', hm', hgot⟩ := hprogress
          · exact .inl hminus
          · exact .inr ⟨hone, hflag, m', hm'.append, hgot⟩
        next => trivial
    · intro c code hmem
      obtain ⟨m', hm', hcode⟩ := hd.returned c code hmem
      exact ⟨m', List.mem_append_left _ hm', hcode⟩
  · cases h

/-- What a message writes for the call that it belongs to. -/
theorem writeFor_callback (hd : Delivery s) (hc : s.worker.call = some c)
    {popup : Option Nat} {m : Callback}
    (hmine : popup = some c ∧ (callbacksOf c s.relayed).head? = some (some c, m) ∨
      popup = none ∧ m.code = "" ∧ s.sab.flag ≠ 1) : WriteFor s c (m.write popup) := by
  unfold Callback.write
  split
  next hcode =>
    obtain ⟨rfl, hfirst⟩ | ⟨-, hempty, -⟩ := hmine
    · have hm : Brings s.relayed c m := ⟨hfirst, hcode⟩
      exact ⟨.inl rfl, .inr ⟨rfl, m, hm, pending_payloadStores (hd.short _ hm.mem)⟩⟩
    · exact absurd hempty hcode
  next hcode =>
    obtain ⟨rfl, hfirst⟩ | ⟨rfl, -, hflag⟩ := hmine
    · refine ⟨.inl rfl, .inl ⟨rfl, fun hflag => ?_⟩⟩
      -- a first callback without a code: there is no code
      obtain ⟨m', hm', -⟩ := (hd.call c hc).code hflag
      obtain rfl := hm'.unique hfirst
      exact hcode hm'.2
    · exact ⟨.inr rfl, .inl ⟨rfl, hflag⟩⟩

theorem write_flag (popup : Option Nat) (m : Callback) :
    ((m.write popup).flag = 1 ∨ (m.write popup).flag = -1) ∧
      ((m.write popup).origin.isBlocked = true → (m.write popup).flag = -1) := by
  unfold Callback.write
  split
  · exact ⟨.inl rfl, fun h => by cases h⟩
  · exact ⟨.inr rfl, fun _ => rfl⟩

theorem write_raised (popup : Option Nat) (m : Callback) : (m.write popup).raised = false := by
  unfold Callback.write
  split <;> rfl

theorem message (hd : Delivery s) (hq : Queues s) {h : Nat} (hok : Orderly s (.message h))
    (hs : s.message h = some s') : Delivery s' := by
  unfold State.message at hs
  split at hs
  next popup m _ hr =>
    obtain rfl := Option.some.inj hs
    obtain ⟨x, hx, hopen, hhead⟩ := next_handler hr
    refine hd.of_write rfl rfl rfl rfl rfl rfl (write_flag popup m) (write_raised popup m)
      fun c hc => ?_
    rw [Orderly, hc, hr] at hok
    refine hd.writeFor_callback hc ?_
    obtain rfl | hother := hok
    · -- the channel was open before the popup, so it is the popup's first callback
      have hlt := hq.opened_lt h (by rw [hx]; exact Option.some_ne_none x)
      have hcur := hq.current c hc
      refine .inl ⟨rfl, ?_⟩
      rw [← hq.inbox h x hx hopen c (by omega)]
      unfold callbacksOf
      obtain ⟨rest, hinbox⟩ := List.head?_eq_some_iff.mp hhead
      rw [hinbox, List.filter_cons, if_pos (decide_eq_true rfl)]
      rfl
    · exact .inr hother
  next => cases hs

theorem timer (hd : Delivery s) {h : Nat} (hok : Orderly s (.timer h))
    (hs : s.timer h = some s') : Delivery s' := by
  unfold State.timer at hs
  split at hs
  next x _ hx =>
    split at hs
    · cases hs
    · obtain rfl := Option.some.inj hs
      refine hd.of_write rfl rfl rfl rfl rfl rfl ⟨.inr rfl, fun _ => rfl⟩ rfl fun c hc => ?_
      rw [Orderly, hc] at hok
      obtain ⟨rfl, hflag⟩ := hok
      exact ⟨rfl, .inl ⟨rfl, hflag⟩⟩
  next => cases hs

/-- A plain store: a code that the flag stands for is only stored once more. -/
theorem store_data (hd : Delivery s) {w : Write} {d : Store} {data : List Store}
    (hw : s.writing = some w) (hdata : w.data = d :: data) :
    Delivery { s with sab := s.sab.store d, writing := some { w with data } } where
  flag := by
    dsimp only
    rw [store_flag]
    exact hd.flag
  writes w' hw' := by
    obtain rfl := Option.some.inj hw'
    exact hd.writes w hw
  raised w' hw' hr := by
    obtain rfl := Option.some.inj hw'
    have hnil := hd.raised w hw hr
    rw [hdata] at hnil
    cases hnil
  short := hd.short
  call c hc := by
    have hi := hd.call c hc
    refine ⟨?_, ?_, fun w' hw' hraised => ?_, ?_⟩
    · dsimp only
      rw [store_flag]
      exact hi.blame
    · dsimp only
      rw [store_flag]
      intro hflag
      obtain ⟨m, hm, hpayload⟩ := hi.code hflag
      by_cases hraised : w.raised = true
      · exact absurd hdata (by rw [hd.raised w hw hraised]; exact (List.cons_ne_nil _ _).symm)
      · rw [Bool.not_eq_true] at hraised
        obtain ⟨-, ⟨-, hnot⟩ | ⟨-, m', hm', hpending⟩⟩ := hi.write w hw hraised
        · exact absurd hflag hnot
        · obtain rfl := hm'.unique hm.1
          rw [hdata] at hpending
          exact ⟨m, hm, hpayload.store (hpending.1 d List.mem_cons_self)⟩
    · obtain rfl := Option.some.inj hw'
      obtain ⟨hfor, ⟨hflag, hnot⟩ | ⟨hflag, m, hm, hpending⟩⟩ := hi.write w hw hraised
      · refine ⟨hfor, .inl ⟨hflag, ?_⟩⟩
        dsimp only
        rw [store_flag]
        exact hnot
      · rw [hdata] at hpending
        exact ⟨hfor, .inr ⟨hflag, m, hm, hpending.store⟩⟩
    · have hprogress := hi.progress
      unfold Progress at hprogress ⊢
      dsimp only
      rw [store_flag]
      exact hprogress
  returned := hd.returned

/-- The store of the flag. -/
theorem raise (hd : Delivery s) {w : Write} (hw : s.writing = some w) (hdata : w.data = [])
    (hraised : w.raised = false) : Delivery { s with
      sab := { s.sab with flag := w.flag }
      writing := some { w with raised := true }
      flagBy := some w.origin } where
  flag := by
    obtain hone | hminus := (hd.writes w hw).1
    · exact .inr (.inl hone)
    · exact .inr (.inr hminus)
  writes w' hw' := by
    obtain rfl := Option.some.inj hw'
    exact hd.writes w hw
  raised w' hw' _ := by
    obtain rfl := Option.some.inj hw'
    exact hdata
  short := hd.short
  call c hc := by
    have hi := hd.call c hc
    obtain ⟨hfor, hcase⟩ := hi.write w hw hraised
    refine ⟨fun _ => ⟨w.origin, rfl, hfor⟩, fun hflag => ?_, fun w' hw' hraised' => ?_, ?_⟩
    · have hone : w.flag = 1 := hflag
      obtain ⟨hminus, -⟩ | ⟨-, m, hm, hpending⟩ := hcase
      · omega
      · rw [hdata] at hpending
        exact ⟨m, hm, hpending.2⟩
    · obtain rfl := Option.some.inj hw'
      cases hraised'
    · have hkeep : s.sab.flag = 1 → w.flag = 1 := by
        intro hone
        obtain ⟨-, hnot⟩ | ⟨hflag, -⟩ := hcase
        · exact absurd hone hnot
        · exact hflag
      have hprogress := hi.progress
      unfold Progress at hprogress ⊢
      dsimp only
      split
      next =>
        have hflag := (hd.writes w hw).1
        omega
      next hat =>
        rw [hat] at hprogress
        obtain hminus | ⟨hone, hflag⟩ := hprogress
        · exact .inl hminus
        · exact .inr ⟨hone, hkeep hflag⟩
      next hat =>
        rw [hat] at hprogress
        obtain hminus | ⟨hone, hflag, hgot⟩ := hprogress
        · exact .inl hminus
        · exact .inr ⟨hone, hkeep hflag, hgot⟩
      next => trivial
  returned := hd.returned

theorem notify (hd : Delivery s) : Delivery { s.notify with writing := none } := by
  have hfree : Delivery { s with writing := none } :=
    { hd with
      writes := nofun
      raised := nofun
      call := fun c hc =>
        { blame := (hd.call c hc).blame
          code := (hd.call c hc).code
          write := nofun
          progress := (hd.call c hc).progress } }
  unfold State.notify
  split
  next c t e hw => exact hfree.of_progress (by rw [hw]; rfl) fun _ _ => trivial
  next => exact hfree

theorem store (hd : Delivery s) (hs : s.store = some s') : Delivery s' := by
  unfold State.store at hs
  split at hs
  next => cases hs
  next w hw =>
    split at hs
    next d data hdata =>
      obtain rfl := Option.some.inj hs
      exact hd.store_data hw hdata
    next hdata =>
      split at hs
      next =>
        obtain rfl := Option.some.inj hs
        exact hd.notify
      next hraised =>
        rw [Bool.not_eq_true] at hraised
        obtain rfl := Option.some.inj hs
        exact hd.raise hw hdata hraised

theorem step {ev : Event} (hd : Delivery s) (hq : Queues s) (hok : Orderly s ev)
    (h : step s ev = some s') : Delivery s' := by
  cases ev with
  | call timeout =>
    rw [OAuth.step, Option.ite_none_right_eq_some] at h
    obtain ⟨-, h⟩ := h
    obtain rfl := Option.some.inj h
    exact hd.beginCall hok
  | work ok => exact hd.work h
  | timedOut => exact hd.timedOut h
  | popup ok => exact hd.openPopup hq h
  | relay popup m => exact hd.relay hok h
  | message k => exact hd.message hq hok h
  | timer k => exact hd.timer hok h
  | store => exact hd.store h

end Delivery

/-! ## The runs -/

/-- A callback or a timeout of an earlier call. -/
def Origin.OfEarlier (c : Nat) : Origin → Prop
  | .callback popup _ => ∃ call, popup = some call ∧ call < c
  | .timeout call => call < c
  | .blocked _ => False

theorem Origin.For.not_earlier {o : Origin} (h : o.For c) : ¬o.OfEarlier c := by
  cases o with
  | callback popup m =>
    rintro ⟨call, rfl, hlt⟩
    obtain hmine | hnone := h
    · obtain rfl := Option.some.inj hmine
      omega
    · cases hnone
  | timeout call =>
    intro hlt
    have hmine : call = c := h
    have hless : call < c := hlt
    omega
  | blocked call => exact fun hno => hno

/-- **Codes go to the call that asked for them.** In a run whose steps are all orderly, a code
that a call returns is the code that its own popup relayed; and when the flag is raised while a
call lasts, neither a callback nor a timeout of an earlier call has raised it. -/
theorem auth_delivered {es : List Event} (hrun : Run step Orderly State.initial es s) :
    (∀ c code, (c, some code) ∈ s.returned →
      ∃ m, (some c, m) ∈ s.relayed ∧ m.code ≠ "" ∧ code = textEncode m.code) ∧
    ∀ c, s.worker.call = some c → s.sab.flag ≠ 0 → ∃ o, s.flagBy = some o ∧ ¬o.OfEarlier c := by
  have hinv : Queues s ∧ Delivery s :=
    hrun.invariant (P := fun s => Queues s ∧ Delivery s) ⟨.initial, .initial⟩
      fun _ _ _ ⟨hq, hd⟩ hok hs => ⟨hq.step hs, hd.step hq hok hs⟩
  refine ⟨hinv.2.returned, fun c hc hflag => ?_⟩
  obtain ⟨o, hby, hfor⟩ := (hinv.2.call c hc).blame hflag
  exact ⟨o, hby, hfor.not_earlier⟩

instance (s : State) (ev : Event) : Decidable (Orderly s ev) :=
  match ev with
  | .call _ => inferInstanceAs (Decidable (_ = true))
  | .relay _ m => inferInstanceAs (Decidable ((textEncode m.code).length ≤ maxBytes))
  | .message h =>
    match hw : s.worker.call, hn : s.nextMessage h with
    | some c, some (popup, m) =>
      decidable_of_iff (popup = some c ∨ popup = none ∧ m.code = "" ∧ s.sab.flag ≠ 1)
        (by rw [Orderly, hw, hn])
    | none, _ => .isTrue (by rw [Orderly, hw]; trivial)
    | some _, none => .isTrue (by rw [Orderly, hw, hn]; trivial)
  | .timer h =>
    match hw : s.worker.call with
    | some c => decidable_of_iff (h = c ∧ s.sab.flag ≠ 1) (by rw [Orderly, hw])
    | none => .isTrue (by rw [Orderly, hw]; trivial)
  | .work _ | .timedOut | .popup _ | .store => .isTrue trivial

/-- A code of two letters. -/
def sampleCallback : Callback := { code := "ok", error := "", errorDescription := "" }

/-- A call whose popup relays a code while the worker waits. -/
def oneCall : List Event :=
  [.call 0, .work true, .work true, .work true, .popup true, .relay (some 0) sampleCallback,
    .message 0, .store, .store, .store, .store, .store,
    .work true, .work true, .work true, .work true, .work true]

theorem auth_delivered_once : ∃ s, Run step Orderly State.initial oneCall s ∧
    (0, some (textEncode "ok")) ∈ s.returned ∧
    ∃ m, (some 0, m) ∈ s.relayed ∧ m.code ≠ "" ∧ textEncode "ok" = textEncode m.code := by
  obtain ⟨s, hrun, hp⟩ := Run.exists_of_execute (show (execute step Orderly State.initial
    oneCall).map (fun s => decide ((0, some (textEncode "ok")) ∈ s.returned)) = some true
      by decide +kernel)
  have hmem := of_decide_eq_true hp
  exact ⟨s, hrun, hmem, (auth_delivered hrun).1 0 _ hmem⟩

/-- The worker gives its first call up after two seconds. The user completes that login while
the second call waits, for a login of its own. -/
def lateCallback : List Event :=
  [.call 2000, .work true, .work true, .work true, .popup true, .timedOut,
    .call 2000, .work true, .work true, .work true, .popup true,
    .relay (some 0) sampleCallback, .message 0, .store, .store, .store, .store, .store,
    .work true, .work true, .work true, .work true, .work true]

/-- The second call returns the code of the first one's popup; its own has relayed nothing. -/
theorem late_code : ∃ s, Run step Always State.initial lateCallback s ∧
    (1, some (textEncode "ok")) ∈ s.returned ∧ ∀ m, (some 1, m) ∉ s.relayed := by
  obtain ⟨s, hrun, hp⟩ := Run.exists_of_execute (show (execute step Always State.initial
    lateCallback).map (fun s => decide ((1, some (textEncode "ok")) ∈ s.returned) &&
      s.relayed.all fun r => r.1 ≠ some 1) = some true by decide +kernel)
  rw [Bool.and_eq_true, decide_eq_true_eq, List.all_eq_true] at hp
  obtain ⟨hmem, hnone⟩ := hp
  exact ⟨s, hrun, hmem, fun m hm => of_decide_eq_true (hnone _ hm) rfl⟩

end Haybarn.OAuth
