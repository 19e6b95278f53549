import Haybarn.Json.Attribution

/-!
# The inferred types (`json_analyzer.cc`)

From what the analyzers have collected to the types of the fields: the type of a first-level key
is one function of the values of that key, and of those among them that the sample holds
(`fieldType`), whatever the other keys are.

The sample comes in for fields with strings, objects or arrays only. It holds all of them as long
as no more than 1024 elements went through the reservoir; behind that it is a sample, and the
type of such a field depends on the rows that were drawn.
-/

namespace Haybarn.Json

open Lib.JsonDoc

/-- The type of a field, from its counters and the values of it that were sampled. -/
def fieldType (arrow : Externals) (forced64 : DataType) (stats : JSONArrayStats)
    (samples : List Json) : DataType :=
  if inferredDirectly stats then medianType arrow (samples.map inferDataType)
  else if inferredFromAnalyzers stats then
    inferFromHits (analyzers.map fun t => (t, samples.countP (testValue arrow t)))
  else scalarType forced64 stats

/-! ## The fields of a row -/

section RowFields

variable (arrow : Externals) (entries : List (String × JSONArrayStats))

/-- The pending fields behind the members of sampled rows. -/
def pendingBehind (ms : List (String × Json)) : PendingFields where
  inferDirectly := (entries.filter fun f => inferredDirectly f.2).map fun f =>
    (f.1, (valuesOf f.1 ms).map inferDataType)
  inferFromAnalyzers := (entries.filter fun f => inferredFromAnalyzers f.2).map fun f =>
    (f.1, analyzers.map fun t => (valuesOf f.1 ms).countP (testValue arrow t))

/-- What a member adds to the values of a key. -/
theorem valuesOf_snoc (k k' : String) (v : Json) (ms : List (String × Json)) :
    valuesOf k (ms ++ [(k', v)]) = if k = k' then valuesOf k ms ++ [v] else valuesOf k ms := by
  by_cases h : k = k'
  · rw [if_pos h, h, valuesOf_snoc_self]
  · rw [if_neg h, valuesOf_snoc_ne (Ne.symm h)]

theorem inferDirectly_snoc (k : String) (v : Json) (ms : List (String × Json)) :
    (pendingBehind arrow entries (ms ++ [(k, v)])).inferDirectly =
      (pendingBehind arrow entries ms).inferDirectly.map fun e =>
        if e.1 = k then (e.1, e.2 ++ [inferDataType v]) else e := by
  unfold pendingBehind
  rw [List.map_map]
  apply List.map_congr_left
  intro f _
  show (f.1, _) = if f.1 = k then _ else _
  rw [valuesOf_snoc]
  by_cases h : f.1 = k
  · rw [if_pos h, if_pos h, List.map_append, List.map_singleton]
  · rw [if_neg h, if_neg h]

theorem inferFromAnalyzers_snoc (k : String) (v : Json) (ms : List (String × Json)) :
    (pendingBehind arrow entries (ms ++ [(k, v)])).inferFromAnalyzers =
      (pendingBehind arrow entries ms).inferFromAnalyzers.map fun e =>
        if e.1 = k then
          (e.1, List.zipWith (fun h t => h + (testValue arrow t v).toNat) e.2 analyzers)
        else e := by
  have hhits : ∀ (t : DataType) (vs : List Json), (vs ++ [v]).countP (testValue arrow t) =
      vs.countP (testValue arrow t) + (testValue arrow t v).toNat := by
    intro t vs
    rw [List.countP_append, List.countP_singleton]
    cases testValue arrow t v <;> rfl
  unfold pendingBehind
  rw [List.map_map]
  apply List.map_congr_left
  intro f _
  show (f.1, _) = if f.1 = k then _ else _
  rw [valuesOf_snoc]
  by_cases h : f.1 = k
  · rw [if_pos h, if_pos h]
    simp only [hhits]
    rfl
  · rw [if_neg h, if_neg h]

variable {entries}

/-- Where no entry has the key, adding to it changes nothing. -/
theorem map_at_absent {α : Type} {k : String} {l : List (String × α)} (g : String × α → String × α)
    (h : k ∉ l.map Prod.fst) : (l.map fun e => if e.1 = k then g e else e) = l := by
  refine (List.map_congr_left fun e he => ?_).trans (List.map_id l)
  exact if_neg fun hk => h (List.mem_map.mpr ⟨e, he, hk⟩)

/-- The names of the pending fields of a kind are keys of entries of that kind. -/
theorem mem_names_filter {α : Type} {p : JSONArrayStats → Bool} {g : String × JSONArrayStats → α}
    {k : String} (h : k ∈ ((entries.filter fun f => p f.2).map fun f => (f.1, g f)).map Prod.fst) :
    ∃ st, (k, st) ∈ entries ∧ p st = true := by
  rw [List.map_map] at h
  obtain ⟨⟨k', st⟩, hf, rfl⟩ := List.mem_map.mp h
  obtain ⟨he, hp⟩ := List.mem_filter.mp hf
  exact ⟨st, he, hp⟩

/-- **A sampled member counts for its own field.** -/
theorem member_pendingBehind (hnodup : (entries.map Prod.fst).Nodup) {k : String}
    (hk : getString k = k) (v : Json) (ms : List (String × Json)) :
    (pendingBehind arrow entries ms).member arrow (k, v) =
      pendingBehind arrow entries (ms ++ [(k, v)]) := by
  have hdirectly := inferDirectly_snoc arrow entries k v ms
  have hanalyzers := inferFromAnalyzers_snoc arrow entries k v ms
  unfold PendingFields.member
  simp only [hk]
  split
  next hmem =>
    -- the field is inferred directly, so no analyzer has it
    have habsent : k ∉ (pendingBehind arrow entries ms).inferFromAnalyzers.map Prod.fst := by
      intro hother
      obtain ⟨st, he, hp⟩ := mem_names_filter hmem
      obtain ⟨st', he', hp'⟩ := mem_names_filter hother
      have hst : st = st' := congrArg Prod.snd (List.inj_on_of_nodup_map hnodup he he' rfl)
      subst hst
      exact (of_decide_eq_true hp').1 hp
    rw [map_at_absent _ habsent] at hanalyzers
    show PendingFields.mk _ _ = _
    rw [← hdirectly, ← hanalyzers]
  next hmem =>
    rw [map_at_absent _ hmem] at hdirectly
    split
    next =>
      show PendingFields.mk _ _ = _
      rw [← hdirectly, ← hanalyzers]
    next hnone =>
      rw [map_at_absent _ hnone] at hanalyzers
      show PendingFields.mk (pendingBehind arrow entries ms).inferDirectly
        (pendingBehind arrow entries ms).inferFromAnalyzers = _
      rw [← hdirectly, ← hanalyzers]

/-- All members of some sampled rows. -/
theorem members_pendingBehind (hnodup : (entries.map Prod.fst).Nodup)
    (ms : List (String × Json)) (hnames : ∀ k ∈ ms.map Prod.fst, getString k = k) :
    ∀ seen : List (String × Json),
      ms.foldl (PendingFields.member arrow) (pendingBehind arrow entries seen) =
        pendingBehind arrow entries (seen ++ ms) := by
  induction ms with
  | nil =>
    intro seen
    rw [List.foldl_nil, List.append_nil]
  | cons m rest ih =>
    intro seen
    rw [List.foldl_cons, member_pendingBehind arrow hnodup (hnames m.1 List.mem_cons_self) m.2 seen,
      ih fun k hk => hnames k (List.mem_cons_of_mem _ hk)]
    exact congrArg _ (List.append_cons seen m rest).symm

/-- The sample pass succeeds when all sampled rows are objects. -/
theorem rows_pendingBehind (hnodup : (entries.map Prod.fst).Nodup) (samples : List Json)
    (hobjects : ∀ s ∈ samples, ∃ ms, s = .object ms)
    (hnames : ∀ k ∈ (samples.flatMap members).map Prod.fst, getString k = k) :
    ∀ seen : List (String × Json), (pendingBehind arrow entries seen).rows arrow samples =
      some (pendingBehind arrow entries (seen ++ samples.flatMap members)) := by
  induction samples with
  | nil =>
    intro seen
    rw [List.flatMap_nil, List.append_nil]
    rfl
  | cons s rest ih =>
    intro seen
    obtain ⟨ms, rfl⟩ := hobjects s List.mem_cons_self
    rw [List.flatMap_cons, List.map_append] at hnames
    rw [PendingFields.rows, members_pendingBehind arrow hnodup ms
      fun k hk => hnames k (List.mem_append_left _ hk)]
    rw [ih (fun s hs => hobjects s (List.mem_cons_of_mem _ hs))
      fun k hk => hnames k (List.mem_append_right _ hk)]
    rw [List.flatMap_cons, ← List.append_assoc]
    rfl

/-- The type of a field of a row. -/
theorem mem_rowFields {k : String} {t : DataType} {ms : List (String × Json)} :
    ((k, t) ∈ (entries.filter fun f =>
        ¬ inferredDirectly f.2 ∧ ¬ inferredFromAnalyzers f.2).map
          (fun f => (f.1, scalarType .uint64 f.2)) ++
      (pendingBehind arrow entries ms).inferDirectly.map (fun e => (e.1, medianType arrow e.2)) ++
      (pendingBehind arrow entries ms).inferFromAnalyzers.map fun e =>
        (e.1, inferFromHits (analyzers.zip e.2))) ↔
    ∃ st, (k, st) ∈ entries ∧ t = fieldType arrow .uint64 st (valuesOf k ms) := by
  unfold pendingBehind
  simp only [List.mem_append, List.map_map, List.mem_map, List.mem_filter, decide_eq_true_eq]
  constructor
  · rintro ((⟨⟨k', st⟩, ⟨he, hnot⟩, heq⟩ | ⟨⟨k', st⟩, ⟨he, hdirectly⟩, heq⟩) |
      ⟨⟨k', st⟩, ⟨he, hanalyzers⟩, heq⟩)
    · obtain ⟨rfl, rfl⟩ := Prod.mk.inj heq
      refine ⟨st, he, ?_⟩
      unfold fieldType
      rw [if_neg hnot.1, if_neg hnot.2]
    · obtain ⟨rfl, rfl⟩ := Prod.mk.inj heq
      refine ⟨st, he, ?_⟩
      unfold fieldType
      rw [if_pos hdirectly]
    · obtain ⟨rfl, rfl⟩ := Prod.mk.inj heq
      refine ⟨st, he, ?_⟩
      unfold fieldType
      rw [if_neg (of_decide_eq_true hanalyzers).1, if_pos hanalyzers]
      rfl
  · rintro ⟨st, he, rfl⟩
    unfold fieldType
    by_cases hdirectly : inferredDirectly st = true
    · rw [if_pos hdirectly]
      exact .inl (.inr ⟨(k, st), ⟨he, hdirectly⟩, rfl⟩)
    · rw [if_neg hdirectly]
      by_cases hanalyzers : inferredFromAnalyzers st = true
      · rw [if_pos hanalyzers]
        exact .inr ⟨(k, st), ⟨he, hanalyzers⟩, rfl⟩
      · rw [if_neg hanalyzers]
        exact .inl (.inl ⟨(k, st), ⟨he, hdirectly, hanalyzers⟩, rfl⟩)

theorem mem_sortFields {f : String × DataType} {fields : List (String × DataType)} :
    f ∈ sortFields fields ↔ f ∈ fields :=
  (List.perm_insertionSort _ fields).mem_iff

/-- **The fields of a row.** Each entry gives a field, and its type depends on the counters of
that entry and on the sampled values of that key. -/
theorem inferRowFields_spec (hnodup : (entries.map Prod.fst).Nodup) (samples : List Json)
    (hobjects : ∀ s ∈ samples, ∃ ms, s = .object ms)
    (hnames : ∀ k ∈ (samples.flatMap members).map Prod.fst, getString k = k) :
    ∃ fields, inferRowFields arrow entries samples = some fields ∧
      ∀ k t, (k, t) ∈ fields ↔ ∃ st, (k, st) ∈ entries ∧
        t = fieldType arrow .uint64 st (valuesOf k (samples.flatMap members)) := by
  have hpending := rows_pendingBehind arrow hnodup samples hobjects hnames []
  rw [List.nil_append] at hpending
  by_cases hnone : (pendingBehind arrow entries []).inferDirectly.isEmpty ∧
      (pendingBehind arrow entries []).inferFromAnalyzers.isEmpty
  · refine ⟨_, if_pos hnone, fun k t => ?_⟩
    -- nothing is pending, so the sample would not have added anything
    have hempty : ∀ ms, (pendingBehind arrow entries ms).inferDirectly = [] ∧
        (pendingBehind arrow entries ms).inferFromAnalyzers = [] := by
      intro ms
      have hdirectly := List.isEmpty_iff.mp hnone.1
      have hanalyzers := List.isEmpty_iff.mp hnone.2
      exact ⟨List.map_eq_nil_iff.mpr (List.map_eq_nil_iff.mp hdirectly),
        List.map_eq_nil_iff.mpr (List.map_eq_nil_iff.mp hanalyzers)⟩
    have hmem := @mem_rowFields arrow entries k t (samples.flatMap members)
    obtain ⟨hdirectly, hanalyzers⟩ := hempty (samples.flatMap members)
    rw [hdirectly, hanalyzers, List.map_nil, List.map_nil, List.append_nil, List.append_nil]
      at hmem
    rw [mem_sortFields]
    exact hmem
  · refine ⟨_, (if_neg hnone).trans (congrArg (Option.map _) hpending), fun k t => ?_⟩
    rw [mem_sortFields]
    exact mem_rowFields arrow

end RowFields

/-! ## The sample -/

theorem mem_sampled {slots : Slots} {x : Json} (vs : List Json) :
    ∀ {s : Sampler}, x ∈ (sampled slots s vs).sample →
      x ∈ s.sample ∨ (x ∈ vs ∧ isSampled x = true) := by
  unfold sampled
  induction vs with
  | nil => exact fun h => .inl h
  | cons v rest ih =>
    intro s h
    cases hv : isSampled v with
    | false =>
      rw [List.filter_cons_of_neg (by rw [hv]; exact Bool.false_ne_true)] at h
      exact (ih h).imp id fun ⟨hx, hs⟩ => ⟨List.mem_cons_of_mem _ hx, hs⟩
    | true =>
      rw [List.filter_cons_of_pos hv, List.foldl_cons] at h
      rcases ih h with hx | ⟨hx, hs⟩
      · have htaken : x ∈ s.sample ∨ x = v := by
          unfold Sampler.take at hx
          dsimp only at hx
          split at hx
          next => exact .inl hx
          next i _ =>
            split at hx
            next => exact (List.mem_append.mp hx).imp id List.mem_singleton.mp
            next => exact List.mem_or_eq_of_mem_set hx
        rcases htaken with hx | rfl
        · exact .inl hx
        · exact .inr ⟨List.mem_cons_self, hv⟩
      · exact .inr ⟨List.mem_cons_of_mem _ hx, hs⟩

/-- **Up to its capacity the reservoir keeps everything**, in order. -/
theorem sampled_of_le {slots : Slots} (vs : List Json) :
    ∀ {s : Sampler}, s.Ok → s.sample.length + (vs.filter isSampled).length ≤ 1024 →
      (sampled slots s vs).sample = s.sample ++ vs.filter isSampled := by
  unfold sampled
  generalize vs.filter isSampled = offered
  induction offered with
  | nil => exact fun _ _ => (List.append_nil _).symm
  | cons v rest ih =>
    intro s hok hle
    rw [List.length_cons] at hle
    have hroom : s.counter.size < 1024 := by
      rw [← hok.length]
      omega
    have htake : (s.take slots v).sample = s.sample ++ [v] := by
      unfold Sampler.take ReservoirSampleCounter.insert
      simp only [if_pos hroom, hok.length, if_true]
    rw [List.foldl_cons, ih (hok.take v) (by
      rw [htake, List.length_append, List.length_singleton]
      omega), htake, List.append_assoc]
    rfl

/-! ## Tables -/

/-- The tokens of some events. The stream is at `tell i` behind the `i`-th. -/
def tokensFrom (tell : Nat → Nat) : Nat → List Event → List Token
  | _, [] => []
  | i, e :: es => ⟨e, tell i⟩ :: tokensFrom tell (i + 1) es

theorem map_event_tokensFrom (tell : Nat → Nat) (es : List Event) :
    ∀ i, (tokensFrom tell i es).map Token.event = es := by
  induction es with
  | nil => exact fun _ => rfl
  | cons e es ih =>
    intro i
    rw [tokensFrom, List.map_cons, ih]

theorem tokensFrom_append (tell : Nat → Nat) (es fs : List Event) :
    ∀ i, tokensFrom tell i (es ++ fs) =
      tokensFrom tell i es ++ tokensFrom tell (i + es.length) fs := by
  induction es with
  | nil => exact fun _ => rfl
  | cons e es ih =>
    intro i
    rw [List.cons_append, tokensFrom, ih, tokensFrom, List.length_cons, List.cons_append,
      Nat.add_right_comm, Nat.add_assoc]

section Tables

variable (arrow : Externals) (slots : Slots)

theorem run_append (ts us : List Token) : ∀ s : TableAnalyzer,
    s.run arrow slots (ts ++ us) = (s.run arrow slots ts).bind fun s' => s'.run arrow slots us := by
  induction ts with
  | nil => exact fun _ => rfl
  | cons t ts ih =>
    intro s
    rw [List.cons_append, TableAnalyzer.run, TableAnalyzer.run]
    cases s.next arrow slots t with
    | none => rfl
    | some s' => exact ih s'

theorem run_rows (ts : List Token) : ∀ a : JSONArrayAnalyzer FieldStats,
    (TableAnalyzer.rows a).run arrow slots ts =
      (a.feed structArray slots (ts.map Token.event)).map .rows := by
  induction ts with
  | nil => exact fun _ => rfl
  | cons t ts ih =>
    intro a
    rw [TableAnalyzer.run, List.map_cons, JSONArrayAnalyzer.feed, TableAnalyzer.next]
    cases a.handle structArray slots t.event with
    | none => rfl
    | some b => exact ih b

/-- A row table that the row analyzer is made for: rows that are objects (nulls, booleans and
numbers are passed over), few first-level keys, and no NUL in a key. -/
structure Trackable (rows : List Json) : Prop where
  plain : ∀ row ∈ rows, isPlainRow row = true
  few : ((rows.flatMap members).map Prod.fst).dedup.length ≤ fieldLimit
  names : ∀ k ∈ (rows.flatMap members).map Prod.fst, getString k = k

/-- The sampled members of a row table. -/
def sampledMembers (rows : List Json) : List (String × Json) :=
  (sampled slots {} rows).sample.flatMap members

/-- The type of a first-level key of a row table, from the values of the key and the sampled
ones. -/
def rowFieldType (vs samples : List Json) : DataType :=
  fieldType arrow .uint64 (statsOf vs) samples

/-- The type of a column. -/
def columnType (vs samples : List Json) : DataType :=
  fieldType arrow .int64 (statsOf vs) samples

variable {arrow slots}

theorem idle_start {σ : Type} (t : σ) : JSONArrayAnalyzer.Idle { target := t } :=
  ⟨rfl, rfl, rfl, Sampler.ok_empty⟩

/-- **The row analyzer behind a table.** It has counted every value under its key. -/
theorem feed_rowArray (slots : Slots) {rows : List Json} (h : Trackable rows) :
    ∃ a : JSONArrayAnalyzer FieldStats,
      JSONArrayAnalyzer.feed structArray slots { target := {} }
        (elementEvents rows ++ [.endArray rows.length]) = some a ∧
      a.done = true ∧ Counts a.target.fieldStats (rows.flatMap members) ∧
      a.sample = (sampled slots {} rows).sample := by
  obtain ⟨b, hb, hidle, hcounts, hsampler⟩ := JSONArrayAnalyzer.feed_rows slots h.few rows h.plain
    (fun k hk => List.mem_dedup.mpr hk) (idle_start {}) Counts.empty nofun
  refine ⟨(b.counted (structArray.close b.target)).atDepth 0, ?_, rfl, hcounts,
    congrArg Sampler.sample hsampler⟩
  rw [JSONArrayAnalyzer.feed_append, hb, Option.bind_some, JSONArrayAnalyzer.feed,
    hidle.handle_end]
  rfl

/-- **The fields of a row table.** -/
theorem inferTableType_rows {rows : List Json} (h : Trackable rows) (tell : Nat → Nat) :
    ∃ fields, inferTableType arrow slots (tokensFrom tell 0 (events (.array rows))) =
        some (.rowArray fields) ∧
      ∀ k t, (k, t) ∈ fields ↔ k ∈ (rows.flatMap members).map Prod.fst ∧
        t = rowFieldType arrow (valuesOf k (rows.flatMap members))
          (valuesOf k (sampledMembers slots rows)) := by
  obtain ⟨a, hfeed, hdone, hcounts, hsample⟩ := feed_rowArray slots h
  have hrow : ∀ s ∈ (sampled slots {} rows).sample, ∃ ms, s = .object ms ∧ s ∈ rows := by
    intro s hs
    rcases mem_sampled rows hs with hs | ⟨hs, hsampled⟩
    · nomatch hs
    · have hplain := h.plain s hs
      cases s with
      | object ms => exact ⟨ms, rfl, hs⟩
      | null => nomatch hsampled
      | bool x => nomatch hsampled
      | number x => nomatch hsampled
      | string x => nomatch hplain
      | array vs => nomatch hplain
  obtain ⟨fields, hfields, hmem⟩ := inferRowFields_spec arrow hcounts.nodup
    (sampled slots {} rows).sample (fun s hs => (hrow s hs).imp fun _ h => h.1) (by
      intro k hk
      obtain ⟨m, hm, rfl⟩ := List.mem_map.mp hk
      obtain ⟨s, hs, hms⟩ := List.mem_flatMap.mp hm
      obtain ⟨_, _, hrows⟩ := hrow s hs
      exact h.names m.1 (List.mem_map.mpr ⟨m, List.mem_flatMap.mpr ⟨s, hrows, hms⟩, rfl⟩))
  refine ⟨fields, ?_, fun k t => ?_⟩
  · unfold inferTableType
    rw [events, List.cons_append, tokensFrom, TableAnalyzer.run, TableAnalyzer.next]
    show ((TableAnalyzer.rows { target := {} }).run arrow slots _).bind _ = _
    rw [run_rows, map_event_tokensFrom, hfeed, Option.map_some, Option.bind_some,
      TableAnalyzer.finish, if_pos hdone, hsample, hfields]
    rfl
  · rw [hmem]
    constructor
    · rintro ⟨st, hst, rfl⟩
      obtain ⟨hk, rfl⟩ := (hcounts.mem_iff k st).mp hst
      exact ⟨hk, rfl⟩
    · rintro ⟨hk, rfl⟩
      exact ⟨_, (hcounts.mem_iff k _).mpr ⟨hk, rfl⟩, rfl⟩

end Tables

/-! ## Column tables -/

section Columns

variable (arrow : Externals) (slots : Slots)

/-- As long as the events of a column stay inside its array, the reader stays in the column. -/
theorem run_elements (fields : List (String × DataType)) (boundaries : List (String × FileRange))
    (name : String) (columnBegin : Nat) (ts : List Token) :
    ∀ {a b : JSONArrayAnalyzer JSONArrayStats},
      Above 1 a.currentDepth (ts.map Token.event) →
      a.feed flatArray slots (ts.map Token.event) = some b →
      (TableAnalyzer.elements fields boundaries name columnBegin a).run arrow slots ts =
        some (.elements fields boundaries name columnBegin b) := by
  induction ts with
  | nil =>
    intro a b _ hfeed
    rw [TableAnalyzer.run, Option.some.inj hfeed]
  | cons t ts ih =>
    intro a b habove hfeed
    obtain ⟨c, hc, hrest⟩ := Option.bind_eq_some_iff.mp hfeed
    have hdepth := JSONArrayAnalyzer.depth_handle hc
    have hinside : ¬ c.done = true := by
      unfold JSONArrayAnalyzer.done
      rw [hdepth, beq_iff_eq]
      exact Nat.ne_of_gt habove.1
    rw [TableAnalyzer.run, TableAnalyzer.next, hc, Option.map_some, if_neg hinside,
      Option.bind_some]
    exact ih (by rw [hdepth]; exact habove.2) hrest

/-- The bytes of a column whose key is the `i`-th event: from the opening bracket to the closing
one. -/
def columnRange (tell : Nat → Nat) (i : Nat) (vs : List Json) : FileRange where
  offset := tell (i + 1) - 1
  size := tell (i + (events (.array vs)).length) - (tell (i + 1) - 1)

/-- The boundaries of some columns. -/
def columnRanges (tell : Nat → Nat) : Nat → List (String × List Json) →
    List (String × FileRange) → List (String × FileRange)
  | _, [], boundaries => boundaries
  | i, (k, vs) :: rest, boundaries =>
    columnRanges tell (i + 1 + (events (.array vs)).length) rest
      (insertBoundary k (columnRange tell i vs) boundaries)

/-- **A column.** -/
theorem run_column (tell : Nat → Nat) (i : Nat) (k : String) (vs : List Json)
    (fields : List (String × DataType)) (boundaries : List (String × FileRange)) :
    (TableAnalyzer.columns fields boundaries).run arrow slots
        (tokensFrom tell i (.key k :: events (.array vs))) =
      some (.columns (fields ++ [(k, columnType arrow vs (sampled slots {} vs).sample)])
        (insertBoundary k (columnRange tell i vs) boundaries)) := by
  obtain ⟨b, hb, hidle, htarget, hsampler⟩ :=
    JSONArrayAnalyzer.feed_column slots vs (idle_start (0 : JSONArrayStats))
  have hlength : (events (.array vs)).length = (elementEvents vs).length + 2 := by
    rw [events, List.length_append, List.length_cons]
    rfl
  have helements := run_elements arrow slots fields boundaries k (tell (i + 1) - 1)
    (tokensFrom tell (i + 2) (elementEvents vs)) (a := { target := 0 }) (b := b)
    (by rw [map_event_tokensFrom]; exact (above_elementEvents vs (Nat.le_refl 1)).1)
    (by rw [map_event_tokensFrom]; exact hb)
  have hend : (TableAnalyzer.elements fields boundaries k (tell (i + 1) - 1) b).run arrow slots
      (tokensFrom tell (i + 2 + (elementEvents vs).length) [.endArray vs.length]) =
      some (.columns (fields ++ [(k, columnType arrow vs (sampled slots {} vs).sample)])
        (insertBoundary k (columnRange tell i vs) boundaries)) := by
    have htype : inferColumnType arrow b.target b.sample =
        columnType arrow vs (sampled slots {} vs).sample := by
      rw [htarget, zero_add, show b.sample = (sampled slots {} vs).sample from
        congrArg Sampler.sample hsampler]
      rfl
    have hrange : columnRange tell i vs = ⟨tell (i + 1) - 1,
        tell (i + 2 + (elementEvents vs).length) - (tell (i + 1) - 1)⟩ := by
      unfold columnRange
      rw [hlength, show i + ((elementEvents vs).length + 2) = i + 2 + (elementEvents vs).length by
        omega]
    rw [tokensFrom, TableAnalyzer.run, TableAnalyzer.next, hidle.handle_end, Option.map_some,
      hrange, ← htype]
    rfl
  rw [events, tokensFrom, TableAnalyzer.run, TableAnalyzer.next, Option.bind_some,
    List.cons_append, tokensFrom, TableAnalyzer.run, TableAnalyzer.next, Option.bind_some,
    tokensFrom_append, run_append, helements, Option.bind_some, hend]

/-- All columns. -/
theorem run_columns (tell : Nat → Nat) (columns : List (String × List Json)) :
    ∀ (i : Nat) (fields : List (String × DataType)) (boundaries : List (String × FileRange)),
      (TableAnalyzer.columns fields boundaries).run arrow slots
          (tokensFrom tell i (memberEvents (columns.map fun c => (c.1, .array c.2)))) =
        some (.columns
          (fields ++ columns.map fun c => (c.1, columnType arrow c.2 (sampled slots {} c.2).sample))
          (columnRanges tell i columns boundaries)) := by
  induction columns with
  | nil =>
    intro i fields boundaries
    rw [List.map_nil, List.map_nil, List.append_nil, memberEvents]
    rfl
  | cons c rest ih =>
    intro i fields boundaries
    obtain ⟨k, vs⟩ := c
    rw [List.map_cons, memberEvents, tokensFrom_append, run_append, run_column, Option.bind_some,
      List.length_cons, Nat.add_comm (events _).length 1, ← Nat.add_assoc, ih, List.map_cons,
      columnRanges, List.append_assoc]
    rfl

/-- **The fields of a column table**, and the bytes of the columns. -/
theorem inferTableType_columns (tell : Nat → Nat) (columns : List (String × List Json)) :
    inferTableType arrow slots (tokensFrom tell 0
        (events (.object (columns.map fun c => (c.1, .array c.2))))) =
      some (.columnObject
        (sortFields (columns.map fun c =>
          (c.1, columnType arrow c.2 (sampled slots {} c.2).sample)))
        (columnRanges tell 1 columns [])) := by
  unfold inferTableType
  rw [events, List.cons_append, tokensFrom, TableAnalyzer.run, TableAnalyzer.next,
    Option.bind_some, tokensFrom_append, run_append, run_columns, Option.bind_some]
  rfl

end Columns

/-! ## The order of the values -/

section Order

variable {arrow : Externals}

/-- Of these values, types with the same fingerprint are the same, which is what fingerprints
are for. -/
def Distinguished (arrow : Externals) (samples : List Json) : Prop :=
  ∀ v ∈ samples, ∀ w ∈ samples,
    arrow.fingerprint (inferDataType v) = arrow.fingerprint (inferDataType w) →
      inferDataType v = inferDataType w

/-- The median does not depend on the order. -/
theorem medianType_perm {vs ws : List Json} (h : vs.Perm ws) (hfp : Distinguished arrow vs) :
    medianType arrow (vs.map inferDataType) = medianType arrow (ws.map inferDataType) := by
  have htotal : Std.Total fun l r : DataType => arrow.fingerprint l ≤ arrow.fingerprint r :=
    ⟨fun _ _ => String.le_total _ _⟩
  have htrans : IsTrans DataType fun l r => arrow.fingerprint l ≤ arrow.fingerprint r :=
    ⟨fun _ _ _ => String.le_trans⟩
  have hmem : ∀ us : List Json, us.Perm vs → ∀ t ∈ (us.map inferDataType).insertionSort
      (fun l r => arrow.fingerprint l ≤ arrow.fingerprint r), ∃ v ∈ vs, inferDataType v = t := by
    intro us hus t ht
    rw [(List.perm_insertionSort _ _).mem_iff] at ht
    obtain ⟨v, hv, rfl⟩ := List.mem_map.mp ht
    exact ⟨v, hus.mem_iff.mp hv, rfl⟩
  have hsorted : (vs.map inferDataType).insertionSort
      (fun l r => arrow.fingerprint l ≤ arrow.fingerprint r) =
      (ws.map inferDataType).insertionSort
        (fun l r => arrow.fingerprint l ≤ arrow.fingerprint r) := by
    refine List.Perm.eq_of_pairwise ?_ (List.pairwise_insertionSort _ _)
      (List.pairwise_insertionSort _ _) ?_
    · intro t u ht hu htu hut
      obtain ⟨v, hv, rfl⟩ := hmem vs (List.Perm.refl _) t ht
      obtain ⟨w, hw, rfl⟩ := hmem ws h.symm u hu
      exact hfp v hv w hw (String.le_antisymm htu hut)
    · exact (List.perm_insertionSort _ _).trans
        ((h.map inferDataType).trans (List.perm_insertionSort _ _).symm)
  unfold medianType
  rw [hsorted]

/-- **The type of a field does not depend on the order of its values.** -/
theorem fieldType_perm (forced64 : DataType) {vs ws ss us : List Json} (h : vs.Perm ws)
    (hs : ss.Perm us) (hfp : Distinguished arrow ss) :
    fieldType arrow forced64 (statsOf vs) ss = fieldType arrow forced64 (statsOf ws) us := by
  have hhits : ∀ t, ss.countP (testValue arrow t) = us.countP (testValue arrow t) :=
    fun t => hs.countP_eq _
  unfold fieldType
  rw [statsOf_perm h, medianType_perm hs hfp]
  simp only [hhits]

/-- A counter of some values is one of them all. -/
theorem counter_statsOf (c : JSONArrayStats → Nat) (hzero : c 0 = 0)
    (hadd : ∀ s t, c (s + t) = c s + c t) (vs : List Json) :
    0 < c (statsOf vs) ↔ ∃ v ∈ vs, 0 < c (valueStats v) := by
  unfold statsOf
  induction vs with
  | nil =>
    rw [List.map_nil, List.sum_nil, hzero]
    exact ⟨nofun, fun ⟨v, hv, _⟩ => nomatch hv⟩
  | cons v rest ih =>
    rw [List.map_cons, List.sum_cons, hadd, Nat.add_pos_iff_pos_or_pos, ih]
    constructor
    · rintro (hv | ⟨w, hw, hpos⟩)
      · exact ⟨v, List.mem_cons_self, hv⟩
      · exact ⟨w, List.mem_cons_of_mem _ hw, hpos⟩
    · rintro ⟨w, hw, hpos⟩
      rcases List.mem_cons.mp hw with rfl | hw
      · exact .inl hpos
      · exact .inr ⟨w, hw, hpos⟩

/-- **Without strings, objects and arrays the sample does not matter.** -/
theorem fieldType_unsampled (forced64 : DataType) {vs : List Json}
    (h : ∀ v ∈ vs, isSampled v = false) (ss us : List Json) :
    fieldType arrow forced64 (statsOf vs) ss = fieldType arrow forced64 (statsOf vs) us := by
  have hnone : ∀ c : JSONArrayStats → Nat, c 0 = 0 → (∀ s t, c (s + t) = c s + c t) →
      (∀ v, isSampled v = false → ¬ 0 < c (valueStats v)) → ¬ 0 < c (statsOf vs) := by
    intro c hzero hadd hscalar hpos
    obtain ⟨v, hv, hc⟩ := (counter_statsOf c hzero hadd vs).mp hpos
    exact hscalar v (h v hv) hc
  have hobject : ¬ 0 < (statsOf vs).counterObject :=
    hnone _ rfl (fun _ _ => rfl) fun v hv => by
      cases v with
      | number x => rw [valueStats_number]; cases x.kind <;> exact Nat.lt_irrefl 0
      | object ms => nomatch hv
      | _ => exact nofun
  have harray : ¬ 0 < (statsOf vs).counterArray :=
    hnone _ rfl (fun _ _ => rfl) fun v hv => by
      cases v with
      | number x => rw [valueStats_number]; cases x.kind <;> exact Nat.lt_irrefl 0
      | array ms => nomatch hv
      | _ => exact nofun
  have hstring : ¬ 0 < (statsOf vs).counterString :=
    hnone _ rfl (fun _ _ => rfl) fun v hv => by
      cases v with
      | number x => rw [valueStats_number]; cases x.kind <;> exact Nat.lt_irrefl 0
      | string s => nomatch hv
      | _ => exact nofun
  have hdirectly : ¬ inferredDirectly (statsOf vs) = true := fun hd =>
    (of_decide_eq_true hd).elim hobject harray
  have hanalyzers : ¬ inferredFromAnalyzers (statsOf vs) = true := fun ha =>
    hstring (of_decide_eq_true ha).2
  unfold fieldType
  rw [if_neg hdirectly, if_neg hdirectly, if_neg hanalyzers, if_neg hanalyzers]

end Order

/-! ## Main results -/

/-- **Values are counted under their keys, and the type of a field comes from its own values.**

A row table that the analyzer is made for is read to its end, with a target for every value that
arrives; the counters of a key are then those of its values, and its type is a function of these
values and of the sampled ones among them. The same holds for each column of a column table. The
function takes its values in any order, it needs the sample for strings, objects and arrays only,
and the sample is complete up to the capacity of the reservoir. -/
theorem inference_by_field (arrow : Externals) (slots : Slots) (tell : Nat → Nat) :
    (∀ rows, Trackable rows →
      (∀ es rest, elementEvents rows ++ [.endArray rows.length] = es ++ rest →
        ∃ a, JSONArrayAnalyzer.feed structArray slots { target := {} } es = some a) ∧
      (∃ a, JSONArrayAnalyzer.feed structArray slots { target := {} }
          (elementEvents rows ++ [.endArray rows.length]) = some a ∧
        Counts a.target.fieldStats (rows.flatMap members)) ∧
      ∃ fields, inferTableType arrow slots (tokensFrom tell 0 (events (.array rows))) =
          some (.rowArray fields) ∧
        ∀ k t, (k, t) ∈ fields ↔ k ∈ (rows.flatMap members).map Prod.fst ∧
          t = rowFieldType arrow (valuesOf k (rows.flatMap members))
            (valuesOf k (sampledMembers slots rows))) ∧
    (∀ columns : List (String × List Json),
      inferTableType arrow slots (tokensFrom tell 0
          (events (.object (columns.map fun c => (c.1, .array c.2))))) =
        some (.columnObject
          (sortFields (columns.map fun c =>
            (c.1, columnType arrow c.2 (sampled slots {} c.2).sample)))
          (columnRanges tell 1 columns []))) ∧
    (∀ vs ws ss us : List Json, vs.Perm ws →
      ((∀ v ∈ vs, isSampled v = false) ∨ (ss.Perm us ∧ Distinguished arrow ss)) →
        rowFieldType arrow vs ss = rowFieldType arrow ws us ∧
        columnType arrow vs ss = columnType arrow ws us) ∧
    (∀ vs : List Json, (vs.filter isSampled).length ≤ 1024 →
      (sampled slots {} vs).sample = vs.filter isSampled) := by
  refine ⟨fun rows h => ⟨fun es rest hes => ?_, ?_, inferTableType_rows h tell⟩,
    inferTableType_columns arrow slots tell, fun vs ws ss us hperm hsamples => ?_, fun vs hle => ?_⟩
  · obtain ⟨a, ha, -⟩ := feed_rowArray slots h
    rw [hes, JSONArrayAnalyzer.feed_append] at ha
    obtain ⟨b, hb, -⟩ := Option.bind_eq_some_iff.mp ha
    exact ⟨b, hb⟩
  · obtain ⟨a, ha, -, hcounts, -⟩ := feed_rowArray slots h
    exact ⟨a, ha, hcounts⟩
  · unfold rowFieldType columnType
    rcases hsamples with hscalar | ⟨hs, hfp⟩
    · rw [← statsOf_perm hperm]
      exact ⟨fieldType_unsampled _ hscalar ss us, fieldType_unsampled _ hscalar ss us⟩
    · exact ⟨fieldType_perm _ hperm hs hfp, fieldType_perm _ hperm hs hfp⟩
  · exact sampled_of_le vs Sampler.ok_empty (by rw [List.length_nil, Nat.zero_add]; exact hle)

theorem inference_by_field_one_row :
    let arrow : Externals := ⟨fun _ => none, fun _ => "", fun _ => ""⟩
    let rows : List Json := [.object [("a", .number (.integer false 1)), ("b", .null)]]
    ∃ fields, inferTableType arrow (fun _ => none) (tokensFrom id 0 (events (.array rows))) =
        some (.rowArray fields) ∧
      ∀ k t, (k, t) ∈ fields ↔ k ∈ (rows.flatMap members).map Prod.fst ∧
        t = rowFieldType arrow (valuesOf k (rows.flatMap members))
          (valuesOf k (sampledMembers (fun _ => none) rows)) :=
  ((inference_by_field _ _ id).1 _
    ⟨by decide +kernel, by decide +kernel, by decide +kernel⟩).2.2

/-! ## A sample that misses a field -/

theorem sampled_append {slots : Slots} (s : Sampler) (vs ws : List Json) :
    sampled slots s (vs ++ ws) = sampled slots (sampled slots s vs) ws := by
  unfold sampled
  rw [List.filter_append, List.foldl_append]

theorem ok_sampled {slots : Slots} (vs : List Json) :
    ∀ {s : Sampler}, s.Ok → (sampled slots s vs).Ok := by
  unfold sampled
  induction vs.filter isSampled with
  | nil => exact fun h => h
  | cons v rest ih => exact fun h => ih (h.take v)

/-- What the random engine leaves out of a full reservoir. -/
theorem take_full {s : Sampler} (h : s.Ok) (hfull : s.sample.length = 1024) (v : Json) :
    (s.take (fun _ => none) v).sample = s.sample := by
  have hsize : ¬ s.counter.size < 1024 := by
    rw [← h.length, hfull]
    exact Nat.lt_irrefl _
  unfold Sampler.take ReservoirSampleCounter.insert
  rw [if_neg hsize]
  rfl

theorem sampled_full (vs : List Json) (hall : ∀ v ∈ vs, isSampled v = true)
    (hfull : vs.length = 1024) {v : Json} (hv : isSampled v = true) :
    (sampled (fun _ => none) {} (vs ++ [v])).sample = vs := by
  have hfilter : vs.filter isSampled = vs := List.filter_eq_self.mpr hall
  have hkept : (sampled (fun _ => none) {} vs).sample = vs := by
    rw [sampled_of_le vs Sampler.ok_empty (by rw [hfilter, hfull]; exact Nat.le_refl _), hfilter]
    rfl
  rw [sampled_append]
  show (((([v] : List Json).filter isSampled).foldl (Sampler.take _) _)).sample = _
  rw [List.filter_cons_of_pos hv]
  show (Sampler.take _ _ v).sample = _
  rw [take_full (ok_sampled vs Sampler.ok_empty) (by rw [hkept]; exact hfull), hkept]

/-- A row with a field, and 1024 without. -/
def rowWithArray : Json := .object [("o", .array [.number (.integer false 1)])]

def emptyRows : List Json := List.replicate 1024 (.object [])

theorem mem_emptyRows {row : Json} (h : row ∈ emptyRows) : row = .object [] :=
  List.eq_of_mem_replicate h

theorem members_replicate (n : Nat) :
    (List.replicate n (Json.object [])).flatMap members = [] := by
  rw [List.flatMap_eq_nil_iff]
  intro row hrow
  rw [List.eq_of_mem_replicate hrow]
  rfl

theorem trackable_first : Trackable (rowWithArray :: emptyRows) :=
  ⟨by decide +kernel, by decide +kernel, by decide +kernel⟩

theorem trackable_last : Trackable (emptyRows ++ [rowWithArray]) :=
  ⟨by decide +kernel, by decide +kernel, by decide +kernel⟩

/-- The two tables have the same rows in another order, and the key has the same values in both.
The engine, as it is seeded, leaves out the first row that comes to a full reservoir, so the type
of the field is that of the array in one table and `null` in the other. -/
theorem type_depends_on_row_order :
    let arrow : Externals := ⟨fun _ => none, fun _ => "", fun _ => ""⟩
    let infer := fun rows => inferTableType arrow (fun _ => none)
      (tokensFrom id 0 (events (.array rows)))
    (rowWithArray :: emptyRows).Perm (emptyRows ++ [rowWithArray]) ∧
    valuesOf "o" ((rowWithArray :: emptyRows).flatMap members) =
      valuesOf "o" ((emptyRows ++ [rowWithArray]).flatMap members) ∧
    (∃ fields, infer (rowWithArray :: emptyRows) = some (.rowArray fields) ∧
      ∀ t, ("o", t) ∈ fields ↔ t = .list .float64) ∧
    ∃ fields, infer (emptyRows ++ [rowWithArray]) = some (.rowArray fields) ∧
      ∀ t, ("o", t) ∈ fields ↔ t = .null := by
  intro arrow infer
  have hfirst : (rowWithArray :: emptyRows).flatMap members = members rowWithArray := by
    rw [List.flatMap_cons, emptyRows, members_replicate, List.append_nil]
  have hlast : (emptyRows ++ [rowWithArray]).flatMap members = members rowWithArray := by
    rw [List.flatMap_append, emptyRows, members_replicate, List.nil_append, List.flatMap_cons,
      List.flatMap_nil, List.append_nil]
  -- behind the first table the reservoir holds the row with the field, behind the second not
  have hsplit : rowWithArray :: emptyRows =
      (rowWithArray :: List.replicate 1023 (.object [])) ++ [.object []] := by
    rw [emptyRows, List.replicate_succ', List.cons_append]
  have hsampledFirst : sampledMembers (fun _ => none) (rowWithArray :: emptyRows) =
      members rowWithArray := by
    unfold sampledMembers
    rw [hsplit, sampled_full, List.flatMap_cons, members_replicate, List.append_nil]
    · intro v hv
      rcases List.mem_cons.mp hv with rfl | hv
      · rfl
      · rw [List.eq_of_mem_replicate hv]
        rfl
    · rw [List.length_cons, List.length_replicate]
    · rfl
  have hsampledLast : sampledMembers (fun _ => none) (emptyRows ++ [rowWithArray]) = [] := by
    unfold sampledMembers
    rw [sampled_full, emptyRows, members_replicate]
    · intro v hv
      rw [mem_emptyRows hv]
      rfl
    · exact List.length_replicate
    · rfl
  obtain ⟨fields, hfields, hmem⟩ :=
    @inferTableType_rows arrow (fun _ => none) _ trackable_first id
  obtain ⟨fields', hfields', hmem'⟩ :=
    @inferTableType_rows arrow (fun _ => none) _ trackable_last id
  refine ⟨(List.perm_append_singleton _ _).symm, by rw [hfirst, hlast],
    ⟨fields, hfields, fun t => ?_⟩, ⟨fields', hfields', fun t => ?_⟩⟩
  · have hvalues : valuesOf "o" (members rowWithArray) =
        [.array [.number (.integer false 1)]] := by
      simp [valuesOf, rowWithArray, members]
    have htype : rowFieldType arrow [.array [.number (.integer false 1)]]
        [.array [.number (.integer false 1)]] = .list .float64 := by
      show medianType arrow [.list .float64] = .list .float64
      simp [medianType]
    rw [hmem, hfirst, hsampledFirst, hvalues, htype]
    exact ⟨fun h => h.2, fun h => ⟨List.mem_cons_self, h⟩⟩
  · rw [hmem', hlast, hsampledLast]
    exact ⟨fun h => h.2, fun h => ⟨List.mem_cons_self, h⟩⟩

end Haybarn.Json
