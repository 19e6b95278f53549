import Haybarn.Json.Analyzer

/-!
# What the handlers do with a value (`json_analyzer.cc`)

The events of a value, taken as a whole. Below the data depth they leave everything as it is but
the sample buffer, which gets the value if its element is sampled, and the pointer to the
statistics, which objects and arrays reset (`feed_value`). At the sample depth an element goes
through the reservoir (`emit_element`).
-/

namespace Haybarn.Json

open Lib.JsonDoc

/-- The first event of a value. -/
def opening : Json → Event
  | .null => .null
  | .bool b => .bool b
  | .number x => .number x
  | .string s => .string s
  | .array _ => .startArray
  | .object _ => .startObject

/-- The reservoir: the counter and what is kept. -/
structure Sampler where
  counter : ReservoirSampleCounter := {}
  sample : List Json := []

/-- An element goes through the reservoir. -/
def Sampler.take (slots : Slots) (s : Sampler) (v : Json) : Sampler where
  counter := (s.counter.insert slots).2
  sample :=
    match (s.counter.insert slots).1 with
    | none => s.sample
    | some i => if i = s.sample.length then s.sample ++ [v] else s.sample.set i v

/-- The reservoir holds as many elements as the counter says. -/
structure Sampler.Ok (s : Sampler) : Prop where
  length : s.sample.length = s.counter.size
  size : s.counter.size ≤ 1024

namespace Sampler

variable {slots : Slots} {s : Sampler}

theorem ok_empty : Sampler.Ok {} := ⟨rfl, Nat.zero_le _⟩

/-- A slot is one that is filled, or the next. -/
theorem Ok.slot_le (h : s.Ok) {i : Nat} (hi : (s.counter.insert slots).1 = some i) :
    i ≤ s.sample.length := by
  unfold ReservoirSampleCounter.insert at hi
  rw [h.length]
  split at hi
  next => exact Nat.le_of_eq (Option.some.inj hi).symm
  next hfull =>
    have hsize : s.counter.size = 1024 := Nat.le_antisymm h.size (Nat.le_of_not_lt hfull)
    cases hslot : slots s.counter.draws with
    | none => simp [hslot] at hi
    | some j =>
      have hij : j.val = i := by simpa [hslot] using hi
      omega

theorem Ok.take (h : s.Ok) (v : Json) : (s.take slots v).Ok := by
  have hlength := h.length
  have hsize := h.size
  by_cases hroom : s.counter.size < 1024
  · have hinsert : s.counter.insert slots =
        (some s.counter.size, { s.counter with size := s.counter.size + 1 }) := if_pos hroom
    constructor
    · simp only [Sampler.take, hinsert, hlength, if_pos, List.length_append, List.length_singleton]
    · simp only [Sampler.take, hinsert]
      omega
  · have hinsert : s.counter.insert slots =
        ((slots s.counter.draws).map (·.val), { s.counter with draws := s.counter.draws + 1 }) :=
      if_neg hroom
    have hfull : s.counter.size = 1024 := by omega
    constructor
    · cases hslot : slots s.counter.draws with
      | none => simp only [Sampler.take, hinsert, hslot, Option.map_none, hlength]
      | some j =>
        have hne : j.val ≠ s.sample.length := by omega
        simp only [Sampler.take, hinsert, hslot, Option.map_some, if_neg hne, List.length_set]
        exact hlength
    · simp only [Sampler.take, hinsert]
      omega

end Sampler

/-- What the end of a value does to the pointer. -/
def Shape.closeIf {σ : Type} (S : Shape σ) (v : Json) (t : σ) : σ :=
  if v.isContainer then S.close t else t

namespace JSONArrayAnalyzer

variable {σ : Type} {S : Shape σ} {slots : Slots} {a b : JSONArrayAnalyzer σ}

theorem feed_append (a : JSONArrayAnalyzer σ) (es fs : List Event) :
    a.feed S slots (es ++ fs) = (a.feed S slots es).bind fun b => b.feed S slots fs := by
  induction es generalizing a with
  | nil => rfl
  | cons e es ih =>
    rw [List.cons_append, feed, feed]
    cases a.handle S slots e with
    | none => rfl
    | some b => exact ih b

/-! ## Single events -/

/-- The analyzer has taken events and counts into a target. -/
def took (a : JSONArrayAnalyzer σ) (es : List Event) (t : σ) : JSONArrayAnalyzer σ :=
  { a with
    target := t
    sampleBuffer := if a.sampleIdx.isSome then es.foldl build a.sampleBuffer else a.sampleBuffer }

/-- The analyzer behind what it counted. -/
def counted (a : JSONArrayAnalyzer σ) (t : σ) : JSONArrayAnalyzer σ := { a with target := t }

def atDepth (a : JSONArrayAnalyzer σ) (d : Nat) : JSONArrayAnalyzer σ :=
  { a with currentDepth := d }

theorem took_took (es fs : List Event) (t u : σ) :
    (a.took es t).took fs u = a.took (es ++ fs) u := by
  unfold took
  cases h : a.sampleIdx.isSome with
  | false => simp only [if_neg Bool.false_ne_true]
  | true => simp only [if_true, List.foldl_append]

theorem write_eq (e : Event) : a.write e = a.took [e] a.target := by
  unfold write took
  split <;> rfl

theorem choose_deep (h : 1 < a.currentDepth) : a.choose slots = a :=
  if_neg (Nat.ne_of_gt h)

theorem target_choose : (a.choose slots).target = a.target := by
  unfold choose
  split <;> rfl

theorem atDepth_choose : (a.choose slots).atDepth a.currentDepth = a.choose slots := by
  unfold choose
  split <;> rfl

theorem took_none (h : a.sampleIdx = none) (es : List Event) (t : σ) :
    a.took es t = a.counted t := by
  have hnot : ¬ a.sampleIdx.isSome = true := by rw [h]; exact Bool.false_ne_true
  unfold took
  rw [if_neg hnot]
  rfl

theorem emit_none (h : a.sampleIdx = none) : a.emit = some a := by
  unfold emit
  rw [h]

theorem emit_deep (h : 1 < a.currentDepth) : a.emit = some a := by
  unfold emit
  split
  next => rfl
  next => rw [if_pos h]

theorem count_deep (h : S.dataDepth < a.currentDepth) (e : Event) : a.count S e = some a := by
  unfold count
  split
  next => rfl
  next => rw [if_neg (Nat.ne_of_gt h)]

/-- Counting changes nothing but the target. -/
theorem count_eq {e : Event} (h : a.count S e = some b) : b = { a with target := b.target } := by
  unfold count at h
  split at h
  next => exact (Option.some.inj h) ▸ rfl
  next d _ =>
    split at h
    next =>
      obtain ⟨t, -, rfl⟩ := Option.map_eq_some_iff.mp h
      rfl
    next => exact (Option.some.inj h) ▸ rfl

/-- The handlers of nulls, booleans and numbers. -/
theorem handle_plain {e : Event} (he : e = .null ∨ (∃ x, e = .bool x) ∨ ∃ x, e = .number x)
    (hcount : a.count S e = some b) : a.handle S slots e = (b.write e).emit := by
  have hhandle : a.handle S slots e = (a.count S e).bind fun b => (b.write e).emit := by
    rcases he with rfl | ⟨x, rfl⟩ | ⟨x, rfl⟩ <;> rfl
  rw [hhandle, hcount, Option.bind_some]

theorem handle_scalar {v : Json} (hv : v.isContainer = false) (hdeep : 1 < a.currentDepth)
    (hcount : a.count S (opening v) = some b) :
    a.handle S slots (opening v) = some (b.took [opening v] b.target) := by
  have hb : 1 < b.currentDepth := by rw [count_eq hcount]; exact hdeep
  have hemit : ∀ e : Event, (b.write e).emit = some (b.took [e] b.target) := by
    intro e
    rw [write_eq]
    exact emit_deep hb
  -- a string is also chosen for the sample, but only at the sample depth
  have hstring : ∀ e : Event, ((b.choose slots).write e).emit = some (b.took [e] b.target) := by
    intro e
    rw [choose_deep hb]
    exact hemit e
  cases v with
  | null => exact (handle_plain (.inl rfl) hcount).trans (hemit _)
  | bool x => exact (handle_plain (.inr (.inl ⟨x, rfl⟩)) hcount).trans (hemit _)
  | number x => exact (handle_plain (.inr (.inr ⟨x, rfl⟩)) hcount).trans (hemit _)
  | string s =>
    have hhandle : a.handle S slots (.string s) =
        (a.count S (.string s)).bind fun b => ((b.choose slots).write (.string s)).emit := rfl
    rw [show a.count S (.string s) = some b from hcount, Option.bind_some] at hhandle
    exact hhandle.trans (hstring _)
  | array vs => nomatch hv
  | object members => nomatch hv

theorem handle_startArray (hcount : a.count S .startArray = some b) :
    a.handle S slots .startArray =
      some (((b.choose slots).atDepth (b.currentDepth + 1)).took [.startArray] b.target) := by
  show (a.count S .startArray).map _ = _
  rw [hcount, Option.map_some, write_eq]
  exact congrArg (fun t => some (took _ _ t)) target_choose

theorem handle_startObject (hcount : a.count S .startObject = some b) :
    a.handle S slots .startObject =
      some (((b.choose slots).atDepth (b.currentDepth + 1)).took [.startObject] b.target) := by
  show (a.count S .startObject).map _ = _
  rw [hcount, Option.map_some, write_eq]
  exact congrArg (fun t => some (took _ _ t)) target_choose

theorem handle_endArray (n : Nat) :
    a.handle S slots (.endArray n) =
      ((a.atDepth (a.currentDepth - 1)).took [.endArray n] (S.close a.target)).emit := by
  show (write _ _).emit = _
  rw [write_eq]
  rfl

theorem handle_endObject (n : Nat) :
    a.handle S slots (.endObject n) =
      ((a.atDepth (a.currentDepth - 1)).took [.endObject n] (S.close a.target)).emit := by
  show (write _ _).emit = _
  rw [write_eq]
  rfl

/-- An object or an array is what is inside, between two events. -/
theorem feed_bracketed {start stop : Event} {inner : List Event} {t : σ}
    (hstart : a.handle S slots start =
      some (((b.choose slots).atDepth (b.currentDepth + 1)).took [start] b.target))
    (hinner : (((b.choose slots).atDepth (b.currentDepth + 1)).took [start] b.target).feed S slots
        inner =
      some ((((b.choose slots).atDepth (b.currentDepth + 1)).took [start] b.target).took inner t))
    (hstop : ∀ c : JSONArrayAnalyzer σ, c.handle S slots stop =
      ((c.atDepth (c.currentDepth - 1)).took [stop] (S.close c.target)).emit) :
    a.feed S slots (start :: inner ++ [stop]) =
      ((b.choose slots).took (start :: inner ++ [stop]) (S.close t)).emit := by
  rw [List.cons_append, feed, hstart, Option.bind_some, feed_append, hinner, Option.bind_some,
    feed, hstop, took_took]
  show (emit ((((b.choose slots).atDepth (b.currentDepth + 1 - 1)).took _ t).took _ _)).bind _ = _
  rw [Nat.add_sub_cancel, atDepth_choose, took_took]
  exact Option.bind_fun_some _

/-! ## Values below the sample depth -/

/-- The end of nested values: the pointer is reset or it is not. -/
theorem close_of_nested (hclose : ∀ t, S.close (S.close t) = S.close t) {t u : σ}
    (h : u = t ∨ u = S.close t) : S.close u = S.close t := by
  rcases h with rfl | rfl
  · rfl
  · exact hclose t

/-- A value that is no object and no array is one event. -/
theorem events_scalar {v : Json} (hv : v.isContainer = false) : events v = [opening v] := by
  cases v with
  | array vs => nomatch hv
  | object members => nomatch hv
  | _ => rw [events, opening]

theorem feed_scalar {v : Json} (hv : v.isContainer = false) (hdeep : 1 < a.currentDepth)
    (hcount : a.count S (opening v) = some b) :
    a.feed S slots (events v) = some (b.took (events v) (S.closeIf v b.target)) := by
  have hclose : S.closeIf v b.target = b.target := by
    unfold Shape.closeIf
    rw [hv]
    exact if_neg Bool.false_ne_true
  rw [events_scalar hv, hclose, feed, handle_scalar hv hdeep hcount]
  rfl

mutual

/-- **The events of a value at or below the data depth.** The first one is counted; of the rest,
only the end of an object or an array is noticed. -/
theorem feed_value (hclose : ∀ t, S.close (S.close t) = S.close t) :
    ∀ (v : Json) {a b : JSONArrayAnalyzer σ}, 1 < a.currentDepth → S.dataDepth ≤ a.currentDepth →
      a.count S (opening v) = some b →
      a.feed S slots (events v) = some (b.took (events v) (S.closeIf v b.target))
  | .null, _, _, hdeep, _, hcount => feed_scalar rfl hdeep hcount
  | .bool _, _, _, hdeep, _, hcount => feed_scalar rfl hdeep hcount
  | .number _, _, _, hdeep, _, hcount => feed_scalar rfl hdeep hcount
  | .string _, _, _, hdeep, _, hcount => feed_scalar rfl hdeep hcount
  | .array vs, a, b, hdeep, hdata, hcount => by
    have hdepth : b.currentDepth = a.currentDepth := by rw [count_eq hcount]
    have hb : 1 < b.currentDepth := by omega
    have hchoose : b.choose slots = b := choose_deep hb
    obtain ⟨t, ht, hinner⟩ := feed_elements hclose vs
      (show 1 < ((b.atDepth (b.currentDepth + 1)).took [.startArray] b.target).currentDepth by
        show 1 < b.currentDepth + 1
        omega)
      (show S.dataDepth < b.currentDepth + 1 by omega)
    have hfeed := feed_bracketed (handle_startArray hcount) (by rw [hchoose]; exact hinner)
      fun c => handle_endArray vs.length
    rw [events, hfeed, hchoose, close_of_nested hclose ht]
    exact emit_deep hb
  | .object members, a, b, hdeep, hdata, hcount => by
    have hdepth : b.currentDepth = a.currentDepth := by rw [count_eq hcount]
    have hb : 1 < b.currentDepth := by omega
    have hchoose : b.choose slots = b := choose_deep hb
    obtain ⟨t, ht, hinner⟩ := feed_members hclose members
      (show 1 < ((b.atDepth (b.currentDepth + 1)).took [.startObject] b.target).currentDepth by
        show 1 < b.currentDepth + 1
        omega)
      (show S.dataDepth < b.currentDepth + 1 by omega)
    have hfeed := feed_bracketed (handle_startObject hcount) (by rw [hchoose]; exact hinner)
      fun c => handle_endObject members.length
    rw [events, hfeed, hchoose, close_of_nested hclose ht]
    exact emit_deep hb

theorem feed_elements (hclose : ∀ t, S.close (S.close t) = S.close t) :
    ∀ (vs : List Json) {a : JSONArrayAnalyzer σ}, 1 < a.currentDepth →
      S.dataDepth < a.currentDepth →
      ∃ t, (t = a.target ∨ t = S.close a.target) ∧
        a.feed S slots (elementEvents vs) = some (a.took (elementEvents vs) t)
  | [], a, _, _ => ⟨a.target, .inl rfl, by rw [elementEvents, feed]; unfold took; split <;> rfl⟩
  | v :: rest, a, hdeep, hdata => by
    have hv := feed_value hclose v hdeep (Nat.le_of_lt hdata) (count_deep hdata (opening v))
    obtain ⟨t, ht, hrest⟩ := feed_elements hclose rest
      (show 1 < (a.took (events v) (S.closeIf v a.target)).currentDepth from hdeep) hdata
    refine ⟨t, ?_, ?_⟩
    · have htarget : S.closeIf v a.target = a.target ∨ S.closeIf v a.target = S.close a.target := by
        unfold Shape.closeIf
        split
        · exact .inr rfl
        · exact .inl rfl
      rcases ht with rfl | rfl
      · exact htarget
      · exact .inr (close_of_nested hclose htarget)
    · rw [elementEvents, feed_append, hv, Option.bind_some, hrest, took_took]

theorem feed_members (hclose : ∀ t, S.close (S.close t) = S.close t) :
    ∀ (members : List (String × Json)) {a : JSONArrayAnalyzer σ}, 1 < a.currentDepth →
      S.dataDepth < a.currentDepth →
      ∃ t, (t = a.target ∨ t = S.close a.target) ∧
        a.feed S slots (memberEvents members) = some (a.took (memberEvents members) t)
  | [], a, _, _ => ⟨a.target, .inl rfl, by rw [memberEvents, feed]; unfold took; split <;> rfl⟩
  | (k, v) :: rest, a, hdeep, hdata => by
    have hkey : a.handle S slots (.key k) = some (a.took [.key k] a.target) := by
      show some (write _ _) = _
      rw [if_neg (Nat.ne_of_gt hdata), write_eq]
    have hv := feed_value hclose v (show 1 < (a.took [.key k] a.target).currentDepth from hdeep)
      (Nat.le_of_lt hdata) (count_deep (a := a.took [.key k] a.target) hdata (opening v))
    obtain ⟨t, ht, hrest⟩ := feed_members hclose rest
      (show 1 < (a.took (.key k :: events v) (S.closeIf v a.target)).currentDepth from hdeep) hdata
    refine ⟨t, ?_, ?_⟩
    · have htarget : S.closeIf v a.target = a.target ∨ S.closeIf v a.target = S.close a.target := by
        unfold Shape.closeIf
        split
        · exact .inr rfl
        · exact .inl rfl
      rcases ht with rfl | rfl
      · exact htarget
      · exact .inr (close_of_nested hclose htarget)
    · rw [memberEvents, List.cons_append, feed, hkey, Option.bind_some, feed_append, hv,
        Option.bind_some, took_took]
      exact hrest.trans (by rw [took_took]; rfl)

end

/-! ## Elements at the sample depth -/

/-- Between two elements of the top-level array. -/
structure Idle (a : JSONArrayAnalyzer σ) : Prop where
  depth : a.currentDepth = 1
  sampleIdx : a.sampleIdx = none
  sampleBuffer : a.sampleBuffer = []
  sampler : Sampler.Ok ⟨a.sampleCounter, a.sample⟩

/-- The analyzer behind an element that it counted and offered to the reservoir. -/
def offered (a : JSONArrayAnalyzer σ) (slots : Slots) (v : Json) (t : σ) : JSONArrayAnalyzer σ :=
  { a with
    target := t
    sampleCounter := (Sampler.take slots ⟨a.sampleCounter, a.sample⟩ v).counter
    sample := (Sampler.take slots ⟨a.sampleCounter, a.sample⟩ v).sample }

theorem Idle.counted (h : a.Idle) (t : σ) : (a.counted t).Idle :=
  ⟨h.depth, h.sampleIdx, h.sampleBuffer, h.sampler⟩

theorem Idle.offered (h : a.Idle) (slots : Slots) (v : Json) (t : σ) : (a.offered slots v t).Idle :=
  ⟨h.depth, h.sampleIdx, h.sampleBuffer, h.sampler.take v⟩

/-- **An element goes through the reservoir.** At its end the buffer holds the element, and the
slot is one of the sample's. -/
theorem emit_element (slots : Slots) (h : a.Idle) (v : Json) (t : σ) :
    ((a.choose slots).took (events v) t).emit = some (a.offered slots v t) := by
  obtain ⟨depth, target, buffer, sample, idx, counter⟩ := a
  obtain ⟨rfl, rfl, rfl, hok⟩ := h
  cases hidx : (counter.insert slots).1 with
  | none =>
    unfold choose took emit offered Sampler.take
    simp only [if_true, hidx, Option.isSome_none, Bool.false_eq_true, if_false]
  | some i =>
    have hle : i ≤ sample.length := hok.slot_le hidx
    have hbuild : (events v).foldl build [] = [v] := build_events [] v
    unfold choose took emit offered Sampler.take
    simp only [if_true, hidx, Option.isSome_some, hbuild, Nat.lt_irrefl, if_false]
    by_cases hnext : i = sample.length
    · rw [if_pos hnext, if_pos hnext]
    · rw [if_neg hnext, if_neg hnext, if_pos (Nat.lt_of_le_of_ne hle hnext)]

/-! ## The depth -/

theorem depth_count {e : Event} (h : a.count S e = some b) : b.currentDepth = a.currentDepth := by
  rw [count_eq h]

theorem depth_choose : (a.choose slots).currentDepth = a.currentDepth := by
  unfold choose
  split <;> rfl

theorem depth_write (e : Event) : (a.write e).currentDepth = a.currentDepth := by
  rw [write_eq]
  rfl

theorem depth_emit (h : a.emit = some b) : b.currentDepth = a.currentDepth := by
  unfold emit at h
  split at h
  next => exact (Option.some.inj h) ▸ rfl
  next =>
    split at h
    next => exact (Option.some.inj h) ▸ rfl
    next =>
      split at h
      next =>
        split at h
        next => exact (Option.some.inj h) ▸ rfl
        next =>
          split at h
          next => exact (Option.some.inj h) ▸ rfl
          next => nomatch h
      next => nomatch h

/-- The analyzer keeps track of the depth. -/
theorem depth_handle {e : Event} (h : a.handle S slots e = some b) :
    b.currentDepth = depthBehind a.currentDepth e := by
  have hplain : ∀ e, (e = .null ∨ (∃ x, e = .bool x) ∨ ∃ x, e = .number x) →
      a.handle S slots e = some b → b.currentDepth = a.currentDepth := by
    intro e he h
    have hhandle : a.handle S slots e = (a.count S e).bind fun b => (b.write e).emit := by
      rcases he with rfl | ⟨x, rfl⟩ | ⟨x, rfl⟩ <;> rfl
    rw [hhandle] at h
    obtain ⟨c, hc, hemit⟩ := Option.bind_eq_some_iff.mp h
    rw [depth_emit hemit, depth_write, depth_count hc]
  cases e with
  | null => exact hplain _ (.inl rfl) h
  | bool x => exact hplain _ (.inr (.inl ⟨x, rfl⟩)) h
  | number x => exact hplain _ (.inr (.inr ⟨x, rfl⟩)) h
  | string s =>
    obtain ⟨c, hc, hemit⟩ := Option.bind_eq_some_iff.mp h
    rw [depth_emit hemit, depth_write, depth_choose, depth_count hc]
    rfl
  | startObject =>
    obtain ⟨c, hc, rfl⟩ := Option.map_eq_some_iff.mp h
    rw [depth_write, depth_count hc]
    rfl
  | startArray =>
    obtain ⟨c, hc, rfl⟩ := Option.map_eq_some_iff.mp h
    rw [depth_write, depth_count hc]
    rfl
  | key k =>
    obtain rfl := Option.some.inj h
    rw [depth_write]
    split <;> rfl
  | endObject n => exact (depth_emit h).trans (depth_write _)
  | endArray n => exact (depth_emit h).trans (depth_write _)

end JSONArrayAnalyzer

end Haybarn.Json
