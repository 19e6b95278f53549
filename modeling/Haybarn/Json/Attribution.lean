import Haybarn.Json.Handlers

/-!
# Values are counted under their keys (`json_analyzer.cc`)

What the analyzers have collected behind the rows of a table, or the elements of a column, said
without the handlers: the counters of a key are those of its values (`Counts`), and the sample
is what the reservoir made of the elements that are objects, arrays or strings.

The row analyzer does so as long as its field limit is not reached and the rows are no arrays;
rows that are strings are kept as well, but have no members (`PlainRow`).
-/

namespace Haybarn.Json

open Lib.JsonDoc

/-! ## Counters -/

instance : AddCommMonoid JSONArrayStats where
  add_assoc a b c := by ext <;> exact Nat.add_assoc _ _ _
  zero_add a := by ext <;> exact Nat.zero_add _
  add_zero a := by ext <;> rfl
  add_comm a b := by ext <;> exact Nat.add_comm _ _
  nsmul := nsmulRec

/-- What a value adds to the counters of its field. -/
def valueStats (v : Json) : JSONArrayStats := (bumps (opening v)).getD 0

/-- What a number adds, by the kind under which it is reported. -/
theorem valueStats_number (x : Number) : valueStats (.number x) =
    match x.kind with
    | .int => { counterInt32 := 1 }
    | .int64 => { counterInt64 := 1 }
    | .uint => { counterUint32 := 1, counterUint32Max := if 2 ^ 31 - 1 ≤ x.value then 1 else 0 }
    | .uint64 => { counterUint64 := 1, counterUint64Max := if 2 ^ 63 - 1 ≤ x.value then 1 else 0 }
    | .double => { counterDouble := 1 } := by
  unfold valueStats opening
  simp only [bumps]
  cases x.kind <;> rfl

/-- The counters of some values. -/
def statsOf (vs : List Json) : JSONArrayStats := (vs.map valueStats).sum

theorem statsOf_snoc (vs : List Json) (v : Json) :
    statsOf (vs ++ [v]) = statsOf vs + valueStats v := by
  unfold statsOf
  rw [List.map_append, List.sum_append, List.map_singleton, List.sum_singleton]

/-- The order of the values does not matter. -/
theorem statsOf_perm {vs ws : List Json} (h : vs.Perm ws) : statsOf vs = statsOf ws :=
  (h.map valueStats).sum_eq

/-- The members of a row. -/
def members : Json → List (String × Json)
  | .object ms => ms
  | _ => []

/-- The values of a key, in the order of the document. -/
def valuesOf (k : String) (ms : List (String × Json)) : List Json :=
  (ms.filter fun m => decide (m.1 = k)).map Prod.snd

theorem valuesOf_snoc_self (k : String) (v : Json) (ms : List (String × Json)) :
    valuesOf k (ms ++ [(k, v)]) = valuesOf k ms ++ [v] := by
  unfold valuesOf
  rw [List.filter_append, List.map_append, List.filter_singleton]
  simp only [decide_true, cond_true, List.map_singleton]

theorem valuesOf_snoc_ne {k k' : String} (h : k' ≠ k) (v : Json) (ms : List (String × Json)) :
    valuesOf k (ms ++ [(k', v)]) = valuesOf k ms := by
  unfold valuesOf
  rw [List.filter_append, List.filter_singleton]
  simp only [h, decide_false, cond_false, List.append_nil]

theorem valuesOf_eq_nil {k : String} {ms : List (String × Json)} (h : k ∉ ms.map Prod.fst) :
    valuesOf k ms = [] := by
  unfold valuesOf
  rw [List.filter_eq_nil_iff.mpr, List.map_nil]
  intro m hm hk
  exact h (List.mem_map.mpr ⟨m, hm, of_decide_eq_true hk⟩)

/-! ## The entries of the row analyzer -/

/-- The entries hold the counters of the keys of some members, and of no others. -/
structure Counts (entries : List (String × JSONArrayStats)) (ms : List (String × Json)) :
    Prop where
  nodup : (entries.map Prod.fst).Nodup
  mem_iff : ∀ k s, (k, s) ∈ entries ↔ k ∈ ms.map Prod.fst ∧ s = statsOf (valuesOf k ms)

namespace Counts

variable {entries : List (String × JSONArrayStats)} {ms : List (String × Json)}

theorem empty : Counts [] [] :=
  ⟨List.nodup_nil, fun _ _ => ⟨nofun, fun h => nomatch h.1⟩⟩

theorem key_mem_iff (h : Counts entries ms) (k : String) :
    k ∈ entries.map Prod.fst ↔ k ∈ ms.map Prod.fst := by
  constructor
  · intro hk
    obtain ⟨⟨k', s⟩, he, rfl⟩ := List.mem_map.mp hk
    exact ((h.mem_iff k' s).mp he).1
  · intro hk
    exact List.mem_map.mpr ⟨_, (h.mem_iff k _).mpr ⟨hk, rfl⟩, rfl⟩

end Counts

theorem map_fst_addTo (k : String) (d : JSONArrayStats)
    (entries : List (String × JSONArrayStats)) :
    (addTo k d entries).map Prod.fst = entries.map Prod.fst := by
  unfold addTo
  rw [List.map_map]
  apply List.map_congr_left
  intro e _
  show (if e.1 = k then (e.1, e.2 + d) else e).1 = e.1
  split <;> rfl

theorem mem_addTo_self {k : String} {s d : JSONArrayStats}
    {entries : List (String × JSONArrayStats)} :
    (k, s) ∈ addTo k d entries ↔ ∃ s₀, (k, s₀) ∈ entries ∧ s = s₀ + d := by
  unfold addTo
  rw [List.mem_map]
  constructor
  · rintro ⟨⟨k', s'⟩, he, heq⟩
    by_cases hk : k' = k
    · subst hk
      rw [if_pos rfl] at heq
      exact ⟨s', he, (congrArg Prod.snd heq).symm⟩
    · rw [if_neg hk] at heq
      exact absurd (congrArg Prod.fst heq) hk
  · rintro ⟨s₀, he, rfl⟩
    exact ⟨(k, s₀), he, if_pos rfl⟩

theorem mem_addTo_ne {k k' : String} {s d : JSONArrayStats}
    {entries : List (String × JSONArrayStats)} (hne : k' ≠ k) :
    (k', s) ∈ addTo k d entries ↔ (k', s) ∈ entries := by
  unfold addTo
  rw [List.mem_map]
  constructor
  · rintro ⟨⟨k'', s'⟩, he, heq⟩
    by_cases hk : k'' = k
    · rw [if_pos hk] at heq
      exact absurd ((congrArg Prod.fst heq).symm.trans hk) hne
    · rw [if_neg hk] at heq
      exact heq ▸ he
  · intro he
    exact ⟨(k', s), he, if_neg hne⟩

/-- A member is counted. -/
def addMember (entries : List (String × JSONArrayStats)) (m : String × Json) :
    List (String × JSONArrayStats) :=
  addTo m.1 (valueStats m.2)
    (if m.1 ∈ entries.map Prod.fst then entries else entries ++ [(m.1, 0)])

theorem Counts.addMember {entries : List (String × JSONArrayStats)} {ms : List (String × Json)}
    (h : Counts entries ms) (k : String) (v : Json) :
    Counts (addMember entries (k, v)) (ms ++ [(k, v)]) := by
  -- the entries with one for the key, which nothing is counted into yet
  obtain ⟨entries', hentries, hnodup, hmem⟩ : ∃ entries', entries' =
      (if k ∈ entries.map Prod.fst then entries else entries ++ [(k, 0)]) ∧
      (entries'.map Prod.fst).Nodup ∧
      ∀ k' s, (k', s) ∈ entries' ↔
        (k' ∈ ms.map Prod.fst ∨ k' = k) ∧ s = statsOf (valuesOf k' ms) := by
    refine ⟨_, rfl, ?_⟩
    by_cases hk : k ∈ entries.map Prod.fst
    · rw [if_pos hk]
      refine ⟨h.nodup, fun k' s => (h.mem_iff k' s).trans ?_⟩
      have hseen := (h.key_mem_iff k).mp hk
      constructor
      · exact fun ⟨hk', hs⟩ => ⟨.inl hk', hs⟩
      · rintro ⟨hk' | rfl, hs⟩
        · exact ⟨hk', hs⟩
        · exact ⟨hseen, hs⟩
    · rw [if_neg hk]
      have hunseen : valuesOf k ms = [] :=
        valuesOf_eq_nil fun hseen => hk ((h.key_mem_iff k).mpr hseen)
      refine ⟨?_, fun k' s => ?_⟩
      · rw [List.map_append]
        exact List.nodup_append.mpr ⟨h.nodup, List.nodup_singleton _, fun a ha b hb heq =>
          hk (((heq.trans (List.mem_singleton.mp hb) : a = k)) ▸ ha)⟩
      · rw [List.mem_append, h.mem_iff, List.mem_singleton]
        constructor
        · rintro (⟨hk', hs⟩ | heq)
          · exact ⟨.inl hk', hs⟩
          · obtain ⟨rfl, rfl⟩ := Prod.mk.inj heq
            exact ⟨.inr rfl, by rw [hunseen]; rfl⟩
        · rintro ⟨hk' | rfl, hs⟩
          · exact .inl ⟨hk', hs⟩
          · exact .inr (by rw [hs, hunseen]; rfl)
  have hunfold : Json.addMember entries (k, v) = addTo k (valueStats v) entries' := by
    rw [hentries]
    rfl
  rw [hunfold]
  refine ⟨by rw [map_fst_addTo]; exact hnodup, fun k' s => ?_⟩
  by_cases hne : k' = k
  · subst hne
    rw [mem_addTo_self, valuesOf_snoc_self, statsOf_snoc, List.map_append, List.mem_append]
    constructor
    · rintro ⟨s₀, he, rfl⟩
      exact ⟨.inr (List.mem_singleton.mpr rfl), by rw [((hmem k' s₀).mp he).2]⟩
    · rintro ⟨-, rfl⟩
      exact ⟨_, (hmem k' _).mpr ⟨.inr rfl, rfl⟩, rfl⟩
  · rw [mem_addTo_ne hne, hmem, valuesOf_snoc_ne (Ne.symm hne), List.map_append, List.mem_append]
    constructor
    · rintro ⟨hk' | hk', hs⟩
      · exact ⟨.inl hk', hs⟩
      · exact absurd hk' hne
    · rintro ⟨hk' | hk', hs⟩
      · exact ⟨.inl hk', hs⟩
      · exact absurd (List.mem_singleton.mp hk') hne

/-! ## The rows -/

/-- There is room for a key as long as there are few of them. -/
theorem Counts.room {entries : List (String × JSONArrayStats)} {ms : List (String × Json)}
    (h : Counts entries ms) {keys : List String} (hkeys : keys.length ≤ fieldLimit)
    (hms : ∀ k ∈ ms.map Prod.fst, k ∈ keys) {k : String} (hk : k ∈ keys) :
    k ∈ entries.map Prod.fst ∨ entries.length < fieldLimit := by
  by_cases hseen : k ∈ entries.map Prod.fst
  · exact .inl hseen
  · right
    have hnodup : (k :: entries.map Prod.fst).Nodup := List.nodup_cons.mpr ⟨hseen, h.nodup⟩
    have hsubset : k :: entries.map Prod.fst ⊆ keys := by
      intro k' hk'
      rcases List.mem_cons.mp hk' with rfl | hk'
      · exact hk
      · exact hms k' ((h.key_mem_iff k').mp hk')
    have hlength := (List.subperm_of_subset hnodup hsubset).length_le
    rw [List.length_cons, List.length_map] at hlength
    omega

theorem addTo_zero (k : String) (entries : List (String × JSONArrayStats)) :
    addTo k 0 entries = entries := by
  unfold addTo
  refine List.map_id'' (fun e => ?_) entries
  split
  next => rw [add_zero]
  next => rfl

theorem fieldStats_closeIf (v : Json) (t : FieldStats) :
    (structArray.closeIf v t).fieldStats = t.fieldStats := by
  unfold Shape.closeIf
  split <;> rfl

namespace JSONArrayAnalyzer

variable {slots : Slots}

section Rows

variable {a : JSONArrayAnalyzer FieldStats}

/-- At the data depth a value is counted into the current entry. -/
theorem count_field (hdepth : a.currentDepth = 2) {k : String} (hstats : a.target.stats = some k)
    (e : Event) :
    a.count structArray e =
      some (a.counted ⟨some k, addTo k ((bumps e).getD 0) a.target.fieldStats⟩) := by
  unfold count
  split
  next hnone =>
    rw [hnone, Option.getD_none, addTo_zero, ← hstats]
    rfl
  next d hsome =>
    rw [hsome, Option.getD_some, if_pos (show a.currentDepth = structArray.dataDepth from hdepth)]
    show ((a.target.stats.map _).map _) = _
    rw [hstats]
    rfl

/-- **A member of a row is counted under its key.** -/
theorem feed_member (slots : Slots) (hdepth : a.currentDepth = 2) (k : String) (v : Json)
    (hroom : k ∈ a.target.fieldStats.map Prod.fst ∨ a.target.fieldStats.length < fieldLimit) :
    a.feed structArray slots (.key k :: events v) =
      some (a.took (.key k :: events v)
        (structArray.closeIf v ⟨some k, addMember a.target.fieldStats (k, v)⟩)) := by
  obtain ⟨entries, hentries, hkey⟩ : ∃ entries, entries =
      (if k ∈ a.target.fieldStats.map Prod.fst then a.target.fieldStats
        else a.target.fieldStats ++ [(k, 0)]) ∧
      a.handle structArray slots (.key k) = some (a.took [.key k] ⟨some k, entries⟩) := by
    refine ⟨_, rfl, ?_⟩
    show some (write _ _) = _
    rw [if_pos (show a.currentDepth = structArray.dataDepth from hdepth), write_eq]
    show some (took a _ (structArray.key k a.target)) = _
    have htarget : structArray.key k a.target = ⟨some k,
        if k ∈ a.target.fieldStats.map Prod.fst then a.target.fieldStats
          else a.target.fieldStats ++ [(k, 0)]⟩ := by
      show (if _ then _ else if _ then _ else _) = _
      by_cases hk : k ∈ a.target.fieldStats.map Prod.fst
      · rw [if_pos hk, if_pos hk]
      · rw [if_neg hk, if_neg hk, if_pos (hroom.resolve_left hk)]
    rw [htarget]
  have hcount := count_field (a := a.took [.key k] ⟨some k, entries⟩) hdepth rfl (opening v)
  have hdeep : (a.took [.key k] ⟨some k, entries⟩).currentDepth = 2 := hdepth
  have hvalue := @feed_value _ structArray slots (fun _ => rfl) v _ _ (by omega)
    (Nat.le_of_eq hdeep.symm) hcount
  rw [feed, hkey, Option.bind_some, hvalue]
  have hmember : addMember a.target.fieldStats (k, v) = addTo k (valueStats v) entries := by
    rw [hentries]
    rfl
  rw [hmember]
  show some ((a.took [.key k] ⟨some k, entries⟩).took (events v)
    (structArray.closeIf v ⟨some k, addTo k (valueStats v) entries⟩)) = _
  rw [took_took]
  rfl

/-- **The members of a row are counted under their keys.** -/
theorem feed_rowMembers (slots : Slots) {keys : List String} (hkeys : keys.length ≤ fieldLimit)
    (ms : List (String × Json)) (hms : ∀ k ∈ ms.map Prod.fst, k ∈ keys) :
    ∀ {a : JSONArrayAnalyzer FieldStats} {seen : List (String × Json)}, a.currentDepth = 2 →
      Counts a.target.fieldStats seen → (∀ k ∈ seen.map Prod.fst, k ∈ keys) →
      ∃ t, Counts t.fieldStats (seen ++ ms) ∧
        a.feed structArray slots (memberEvents ms) = some (a.took (memberEvents ms) t) := by
  induction ms with
  | nil =>
    intro a seen _ hcounts _
    refine ⟨a.target, by rw [List.append_nil]; exact hcounts, ?_⟩
    rw [memberEvents, feed]
    unfold took
    split <;> rfl
  | cons m rest ih =>
    intro a seen hdepth hcounts hseen
    obtain ⟨k, v⟩ := m
    have hk : k ∈ keys := hms k List.mem_cons_self
    have hmember := feed_member slots hdepth k v (hcounts.room hkeys hseen hk)
    have hseen' : ∀ k' ∈ (seen ++ [(k, v)]).map Prod.fst, k' ∈ keys := by
      intro k' hk'
      rw [List.map_append, List.mem_append] at hk'
      rcases hk' with hk' | hk'
      · exact hseen k' hk'
      · exact (List.mem_singleton.mp hk' : k' = k) ▸ hk
    obtain ⟨t, ht, hrest⟩ := ih (fun k' hk' => hms k' (List.mem_cons_of_mem _ hk'))
      (show (a.took (.key k :: events v)
        (structArray.closeIf v ⟨some k, addMember a.target.fieldStats (k, v)⟩)).currentDepth = 2
        from hdepth)
      (by
        show Counts (structArray.closeIf v _).fieldStats _
        rw [fieldStats_closeIf]
        exact hcounts.addMember k v) hseen'
    refine ⟨t, by rw [List.append_cons]; exact ht, ?_⟩
    rw [memberEvents, feed_append, hmember, Option.bind_some, hrest, took_took]

end Rows

end JSONArrayAnalyzer

/-- The elements that are offered to the reservoir. -/
def isSampled : Json → Bool
  | .string _ => true
  | v => v.isContainer

/-- The reservoir behind some elements. -/
def sampled (slots : Slots) (s : Sampler) (vs : List Json) : Sampler :=
  (vs.filter isSampled).foldl (Sampler.take slots) s

/-- A row that the row analyzer expects: an object, or what is passed over. -/
def isPlainRow : Json → Bool
  | .array _ => false
  | .string _ => false
  | _ => true

namespace JSONArrayAnalyzer

/-- The reservoir of an analyzer. -/
def sampler {σ : Type} (a : JSONArrayAnalyzer σ) : Sampler := ⟨a.sampleCounter, a.sample⟩

/-- Behind an element that was offered to the reservoir or not. -/
def behind {σ : Type} (a : JSONArrayAnalyzer σ) (slots : Slots) (v : Json) (t : σ) :
    JSONArrayAnalyzer σ :=
  if isSampled v then a.offered slots v t else a.counted t

section Behind

variable {σ : Type} {slots : Slots} {a : JSONArrayAnalyzer σ}

theorem Idle.behind (h : a.Idle) (slots : Slots) (v : Json) (t : σ) :
    (a.behind slots v t).Idle := by
  unfold JSONArrayAnalyzer.behind
  split
  next => exact h.offered slots v t
  next => exact h.counted t

theorem target_behind (v : Json) (t : σ) : (a.behind slots v t).target = t := by
  unfold behind
  split <;> rfl

theorem sampled_behind (v : Json) (t : σ) (rest : List Json) :
    sampled slots (a.behind slots v t).sampler rest = sampled slots a.sampler (v :: rest) := by
  unfold behind sampled
  cases hv : isSampled v with
  | true => rw [List.filter_cons_of_pos hv]; rfl
  | false => rw [List.filter_cons_of_neg (by rw [hv]; exact Bool.false_ne_true)]; rfl

/-- The end of the top-level array. -/
theorem Idle.handle_end {S : Shape σ} (h : a.Idle) (n : Nat) :
    a.handle S slots (.endArray n) = some ((a.counted (S.close a.target)).atDepth 0) := by
  have hnone : (a.atDepth (1 - 1)).sampleIdx = none := h.sampleIdx
  rw [handle_endArray, h.depth, took_none hnone]
  exact emit_none h.sampleIdx

end Behind

section Rows

variable {slots : Slots} {a : JSONArrayAnalyzer FieldStats}

/-- **A row.** Its members are counted, and an object is offered to the reservoir. -/
theorem feed_row (slots : Slots) {keys : List String} (hkeys : keys.length ≤ fieldLimit)
    {row : Json}
    (hplain : isPlainRow row = true) (hrow : ∀ k ∈ (members row).map Prod.fst, k ∈ keys)
    {seen : List (String × Json)} (h : a.Idle) (hcounts : Counts a.target.fieldStats seen)
    (hseen : ∀ k ∈ seen.map Prod.fst, k ∈ keys) :
    ∃ t : FieldStats, Counts t.fieldStats (seen ++ members row) ∧
      a.feed structArray slots (events row) = some (a.behind slots row t) := by
  have hnocount : ∀ e, a.count structArray e = some a := by
    intro e
    unfold count
    split
    next => rfl
    next => exact if_neg (by rw [h.depth]; exact nofun)
  -- scalars are neither counted nor sampled
  have hscalar : ∀ e : Event, (e = .null ∨ (∃ x, e = .bool x) ∨ ∃ x, e = .number x) →
      a.feed structArray slots [e] = some (a.counted a.target) := by
    intro e he
    rw [feed, handle_plain he (hnocount e), write_eq, took_none h.sampleIdx,
      emit_none (show (a.counted a.target).sampleIdx = none from h.sampleIdx)]
    rfl
  have hnil : Counts a.target.fieldStats (seen ++ []) := by rw [List.append_nil]; exact hcounts
  cases row with
  | null =>
    rw [events]
    exact ⟨a.target, hnil, hscalar _ (.inl rfl)⟩
  | bool x =>
    rw [events]
    exact ⟨a.target, hnil, hscalar _ (.inr (.inl ⟨x, rfl⟩))⟩
  | number x =>
    rw [events]
    exact ⟨a.target, hnil, hscalar _ (.inr (.inr ⟨x, rfl⟩))⟩
  | string s => nomatch hplain
  | array vs => nomatch hplain
  | object ms =>
    obtain ⟨t, ht, hms⟩ := feed_rowMembers slots hkeys ms hrow
      (show (((a.choose slots).atDepth (a.currentDepth + 1)).took [.startObject]
        a.target).currentDepth = 2 by
        show a.currentDepth + 1 = 2
        rw [h.depth])
      hcounts hseen
    have hfeed := feed_bracketed (handle_startObject (hnocount .startObject)) hms
      fun c => handle_endObject ms.length
    have hemit := emit_element slots h (.object ms) (structArray.close t)
    rw [events] at hemit
    refine ⟨structArray.close t, ht, ?_⟩
    rw [events, hfeed]
    exact hemit

/-- **All rows.** -/
theorem feed_rows (slots : Slots) {keys : List String} (hkeys : keys.length ≤ fieldLimit)
    (rows : List Json)
    (hplain : ∀ row ∈ rows, isPlainRow row = true)
    (hrows : ∀ k ∈ (rows.flatMap members).map Prod.fst, k ∈ keys) :
    ∀ {a : JSONArrayAnalyzer FieldStats} {seen : List (String × Json)}, a.Idle →
      Counts a.target.fieldStats seen → (∀ k ∈ seen.map Prod.fst, k ∈ keys) →
      ∃ b : JSONArrayAnalyzer FieldStats, a.feed structArray slots (elementEvents rows) = some b ∧
        b.Idle ∧ Counts b.target.fieldStats (seen ++ rows.flatMap members) ∧
        b.sampler = sampled slots a.sampler rows := by
  induction rows with
  | nil =>
    intro a seen h hcounts _
    exact ⟨a, by rw [elementEvents]; rfl, h,
      by rw [List.flatMap_nil, List.append_nil]; exact hcounts,
      rfl⟩
  | cons row rest ih =>
    intro a seen h hcounts hseen
    have hrow : ∀ k ∈ (members row).map Prod.fst, k ∈ keys := fun k hk =>
      hrows k (by rw [List.flatMap_cons, List.map_append]; exact List.mem_append_left _ hk)
    have hrest : ∀ k ∈ (rest.flatMap members).map Prod.fst, k ∈ keys := fun k hk =>
      hrows k (by rw [List.flatMap_cons, List.map_append]; exact List.mem_append_right _ hk)
    obtain ⟨t, ht, hfeed⟩ := feed_row slots hkeys (hplain row List.mem_cons_self) hrow h
      hcounts hseen
    obtain ⟨b, hb, hidle, hcountsb, hsampler⟩ := ih
      (fun r hr => hplain r (List.mem_cons_of_mem _ hr)) hrest (h.behind slots row t)
      (by rw [target_behind]; exact ht)
      (by
        intro k hk
        rw [List.map_append, List.mem_append] at hk
        exact hk.elim (hseen k) (hrow k))
    refine ⟨b, ?_, hidle, ?_, ?_⟩
    · rw [elementEvents, feed_append, hfeed]
      exact hb
    · rw [List.flatMap_cons, ← List.append_assoc]
      exact hcountsb
    · rw [hsampler, sampled_behind]

end Rows

section Columns

variable {a : JSONArrayAnalyzer JSONArrayStats}

/-- Every element of a column is counted. -/
theorem count_element (h : a.Idle) (e : Event) :
    a.count flatArray e = some (a.counted (a.target + (bumps e).getD 0)) := by
  unfold count
  split
  next hnone =>
    rw [hnone, Option.getD_none, add_zero]
    rfl
  next d hsome =>
    rw [hsome, Option.getD_some, if_pos (show a.currentDepth = flatArray.dataDepth from h.depth)]
    rfl

/-- **An element of a column.** -/
theorem feed_element (slots : Slots) (h : a.Idle) (v : Json) :
    a.feed flatArray slots (events v) = some (a.behind slots v (a.target + valueStats v)) := by
  have hcount : a.count flatArray (opening v) = some (a.counted (a.target + valueStats v)) :=
    count_element h (opening v)
  obtain ⟨t, ht⟩ : ∃ t, t = a.target + valueStats v := ⟨_, rfl⟩
  rw [← ht] at hcount ⊢
  have hb : (a.counted t).Idle := h.counted t
  have hemit := emit_element slots hb v t
  have hdeep : 1 < (a.counted t).currentDepth + 1 := by
    rw [hb.depth]
    exact Nat.one_lt_two
  have hscalar : ∀ e : Event, (e = .null ∨ (∃ x, e = .bool x) ∨ ∃ x, e = .number x) →
      a.count flatArray e = some (a.counted t) →
      a.feed flatArray slots [e] = some (a.counted t) := by
    intro e he hcount
    rw [feed, handle_plain he hcount, write_eq, took_none hb.sampleIdx]
    exact congrArg (Option.bind · _) (emit_none hb.sampleIdx)
  cases v with
  | null => rw [events]; exact hscalar _ (.inl rfl) hcount
  | bool x => rw [events]; exact hscalar _ (.inr (.inl ⟨x, rfl⟩)) hcount
  | number x => rw [events]; exact hscalar _ (.inr (.inr ⟨x, rfl⟩)) hcount
  | string s =>
    have hhandle : a.handle flatArray slots (.string s) = (a.count flatArray (.string s)).bind
        fun b => ((b.choose slots).write (.string s)).emit := rfl
    rw [events] at hemit ⊢
    rw [feed, hhandle, show a.count flatArray (.string s) = _ from hcount, Option.bind_some,
      write_eq, target_choose]
    exact (Option.bind_fun_some _).trans hemit
  | array vs =>
    obtain ⟨u, hu, hinner⟩ := @feed_elements _ flatArray slots (fun _ => rfl) vs
      ((((a.counted t).choose slots).atDepth ((a.counted t).currentDepth + 1)).took
        [.startArray] t) hdeep hdeep
    have hfeed := feed_bracketed (handle_startArray hcount) hinner fun c =>
      handle_endArray vs.length
    have hclose : flatArray.close u = t := hu.elim id id
    rw [events] at hemit ⊢
    rw [hfeed, hclose]
    exact hemit
  | object ms =>
    obtain ⟨u, hu, hinner⟩ := @feed_members _ flatArray slots (fun _ => rfl) ms
      ((((a.counted t).choose slots).atDepth ((a.counted t).currentDepth + 1)).took
        [.startObject] t) hdeep hdeep
    have hfeed := feed_bracketed (handle_startObject hcount) hinner fun c =>
      handle_endObject ms.length
    have hclose : flatArray.close u = t := hu.elim id id
    rw [events] at hemit ⊢
    rw [hfeed, hclose]
    exact hemit

/-- **All elements of a column.** -/
theorem feed_column (slots : Slots) (vs : List Json) :
    ∀ {a : JSONArrayAnalyzer JSONArrayStats}, a.Idle →
      ∃ b : JSONArrayAnalyzer JSONArrayStats, a.feed flatArray slots (elementEvents vs) = some b ∧
        b.Idle ∧ b.target = a.target + statsOf vs ∧ b.sampler = sampled slots a.sampler vs := by
  induction vs with
  | nil =>
    intro a h
    exact ⟨a, by rw [elementEvents]; rfl, h, (add_zero a.target).symm, rfl⟩
  | cons v rest ih =>
    intro a h
    obtain ⟨b, hb, hidle, htarget, hsampler⟩ := ih (h.behind slots v (a.target + valueStats v))
    refine ⟨b, ?_, hidle, ?_, ?_⟩
    · rw [elementEvents, feed_append, feed_element slots h v]
      exact hb
    · rw [htarget, target_behind, add_assoc]
      unfold statsOf
      rw [List.map_cons, List.sum_cons]
    · rw [hsampler, sampled_behind]

end Columns

end JSONArrayAnalyzer

end Haybarn.Json
