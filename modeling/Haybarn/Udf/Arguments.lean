import Mathlib
import Haybarn.Udf.ScalarCall

/-!
# What a function sees of its arguments

`createDataView` leaves pointers to the values of a vector, and `buildResolver` makes views of
them. As long as the memory does not grow, what a resolver returns for a row is the value in
it; once the memory has grown the views are gone, and everything is null but a VARCHAR argument,
whose strings have been read before (`FlatVector.seen`, `createColumnViews_spec`).
-/

namespace Haybarn.Udf

open Haybarn.Lib Haybarn.Lib.TypedHeap

variable {N : Type}

/-! ## Vectors in a memory -/

section Frame

variable {blocks blocks' : List Block} {rows row : Nat}

mutual

theorem FlatVector.InUse.mono (hsub : blocks ⊆ blocks') : ∀ {vec : FlatVector},
    vec.InUse blocks rows → vec.InUse blocks' rows
  | .number .., h => by
    obtain ⟨b, hb, hspans⟩ := h
    exact ⟨b, hsub hb, hspans⟩
  | .varchar .., h => by
    intro row hrow hvalid
    obtain ⟨b, hb, hspans⟩ := h row hrow hvalid
    exact ⟨b, hsub hb, hspans⟩
  | .struct .., h => StructEntries.InUse.mono hsub h

theorem StructEntries.InUse.mono (hsub : blocks ⊆ blocks') : ∀ {entries : StructEntries},
    entries.InUse blocks rows → entries.InUse blocks' rows
  | .nil, h => h
  | .cons .., h => ⟨FlatVector.InUse.mono hsub h.1, StructEntries.InUse.mono hsub h.2⟩

end

variable [DecidableEq N] {num : Numbers N} {decode : List UInt8 → String} {h h' : Heap N}

/-- The element of a row is in the block of the array. -/
theorem spans_element {b : Block} {k : ElementType} {data : Nat}
    (hspans : b.Spans data (rows * k.size)) (hrow : row < rows) :
    b.Spans (data + row * k.size) k.size := by
  have hend := element_le (k := k) hrow
  unfold Block.Spans at hspans ⊢
  omega

mutual

/-- A value stays what it is as long as what is in use is kept. -/
theorem FlatVector.valueAt_keeps (hk : h.Keeps h') (hrow : row < rows) : ∀ {vec : FlatVector},
    vec.InUse h.blocks rows → vec.valueAt num decode h' row = vec.valueAt num decode h row
  | .number type validity data, huse => by
    obtain ⟨b, hb, hspans⟩ := huse
    unfold FlatVector.valueAt
    rw [hk.load num hb (spans_element hspans hrow)]
  | .varchar validity data size, huse => by
    unfold FlatVector.valueAt
    split
    next hvalid =>
      obtain ⟨b, hb, hspans⟩ := huse row hrow hvalid
      rw [hk.loadBytes num hb hspans]
    next => rfl
  | .struct validity entries, huse => by
    unfold FlatVector.valueAt
    rw [StructEntries.valuesAt_keeps hk hrow huse]

theorem StructEntries.valuesAt_keeps (hk : h.Keeps h') (hrow : row < rows) :
    ∀ {entries : StructEntries}, entries.InUse h.blocks rows →
      entries.valuesAt num decode h' row = entries.valuesAt num decode h row
  | .nil, _ => rfl
  | .cons name entry entries, huse => by
    unfold StructEntries.valuesAt
    rw [FlatVector.valueAt_keeps hk hrow huse.1, StructEntries.valuesAt_keeps hk hrow huse.2]

end

end Frame

/-! ## The buffers -/

/-- Views have been added. -/
structure Buffers.Extends (num : Numbers N) (s s' : Buffers N) : Prop where
  heap : s.heap.Keeps s'.heap
  dataPtrs : s.dataPtrs <+: s'.dataPtrs
  clear : s.heap.Clear num → s'.heap.Clear num

theorem Buffers.Extends.trans {num : Numbers N} {s s' s'' : Buffers N} (hs : s.Extends num s')
    (hs' : s'.Extends num s'') : s.Extends num s'' :=
  ⟨hs.heap.trans hs'.heap, hs.dataPtrs.trans hs'.dataPtrs, fun h => hs'.clear (hs.clear h)⟩

theorem ptrAt_append {ptrs xs : List Nat} {p : Nat} (h : xs ++ [p] <+: ptrs) :
    ptrAt ptrs xs.length = p := by
  obtain ⟨rest, rfl⟩ := h
  unfold ptrAt
  rw [List.append_assoc, List.getD_append_right _ _ _ _ (Nat.le_refl _), Nat.sub_self]
  rfl

section Seen

variable [DecidableEq N] (env : Env N) {rows row : Nat}

/-- What JavaScript sees of a vector: values, as `TextDecoder` decodes them, and nothing but
strings once the views are detached. -/
def FlatVector.seen (detached : Bool) (h : Heap N) (row : Nat) (vec : FlatVector) : JsVal N :=
  if detached && !vec.isVarchar then .null else vec.valueAt env.num TextDecoder.decode h row

/-- The array at `p` has these elements. -/
def Holds (h : Heap N) (k : ElementType) (p n : Nat) (xs : Nat → N) : Prop :=
  ∀ i, i < n → load env.num h.cells k (p + i * k.size) = xs i

variable {env} {h h' : Heap N} {s : Buffers N}

omit [DecidableEq N] in
theorem createAdditionalBuffer_extends (k : ElementType) (xs : Nat → N) :
    s.Extends env.num (createAdditionalBuffer env rows k xs s) :=
  ⟨Heap.newArray_keeps, List.prefix_append .., Heap.Clear.newArray⟩

theorem createAdditionalBuffer_holds {k : ElementType} {xs : Nat → N} {ptrs : List Nat}
    (hptrs : (createAdditionalBuffer env rows k xs s).dataPtrs <+: ptrs)
    (hk : (createAdditionalBuffer env rows k xs s).heap.Keeps h) :
    Holds env h k (ptrAt ptrs s.dataPtrs.length) rows xs := by
  intro i hi
  rw [ptrAt_append hptrs]
  exact Heap.newArray_load env.num hk hi

/-- A row is hidden where the validity has no value or says so. -/
theorem hides_eq {p : Nat} {valid : Nat → Bool} {grown : Nat}
    (hholds : Holds env h' .uint8 p rows fun row => env.num.ofNat (valid row).toNat)
    (hrow : row < rows) :
    hides env h' row (some ⟨grown, .uint8, p, rows⟩) =
      (decide (grown ≠ h'.grown) || !valid row) := by
  unfold hides View.get View.size
  by_cases hgrown : grown = h'.grown
  · have hdetached : decide (grown ≠ h'.grown) = false := decide_eq_false (not_not_intro hgrown)
    dsimp only
    rw [if_pos hgrown, if_pos hrow, hholds row hrow, hdetached, Bool.false_or]
    show decide (env.num.ofNat (valid row).toNat = env.num.ofNat 0) = !valid row
    cases valid row with
    | true => exact decide_eq_false fun heq => Nat.one_ne_zero (env.num.ofNat_inj heq)
    | false => exact decide_eq_true rfl
  · dsimp only
    rw [if_neg hgrown, if_neg (Nat.not_lt_zero row), decide_eq_true hgrown]
    rfl

theorem addressAt_eq {p : Nat} {f : Nat → Nat} (hrow : row < rows)
    (hholds : Holds env h .float64 p rows fun row => env.num.ofNat (f row)) :
    addressAt env h ⟨h.grown, .float64, p, rows⟩ row = f row := by
  unfold addressAt View.get View.size
  dsimp only
  rw [if_pos rfl, if_pos hrow, hholds row hrow]
  exact env.num.toNat_ofNat _

end Seen

/-! ## From a view to a resolver -/

section Described

variable [DecidableEq N] (env : Env N) (rows : Nat)

/-- A resolver made of the description returns what is seen of the vector in `h₀`. -/
def Described (desc : ArgumentTypeDescription) (s : Buffers N) (vec : FlatVector) (h₀ : Heap N) :
    Prop :=
  ∀ ptrs h, s.dataPtrs <+: ptrs → s.heap.Keeps h →
    ∃ r, buildResolver env ptrs h rows desc = .ok r ∧
      ∀ h', h.Keeps h' → ∀ row, row < rows →
        resolve env h' row r = vec.seen env (decide (h.grown ≠ h'.grown)) h₀ row

/-- The same of the entries of a struct, as long as the views are there. -/
def EntriesDescribed (descs : List ArgumentTypeDescription) (s : Buffers N)
    (entries : StructEntries) (h₀ : Heap N) : Prop :=
  ∀ ptrs h, s.dataPtrs <+: ptrs → s.heap.Keeps h →
    ∃ rs, buildResolvers env ptrs h rows descs = .ok rs ∧
      ∀ h', h.Keeps h' → h.grown = h'.grown → ∀ row, row < rows →
        resolveChildren env h' row rs = entries.valuesAt env.num TextDecoder.decode h₀ row

variable {env rows} {s : Buffers N} {name : Option String}

omit [DecidableEq N] in
theorem createValidity_extends (vec : FlatVector) :
    s.Extends env.num (createValidity env rows vec s) :=
  createAdditionalBuffer_extends ..

/-- The view of the validity hides what is not valid, and everything once it is detached. -/
theorem validity_hides {vec : FlatVector} {ptrs : List Nat} {h h' : Heap N} {row : Nat}
    (hptrs : (createValidity env rows vec s).dataPtrs <+: ptrs)
    (hk : (createValidity env rows vec s).heap.Keeps h') (hrow : row < rows) :
    hides env h' row (some (ptrToUint8Array h (ptrAt ptrs s.dataPtrs.length) rows)) =
      (decide (h.grown ≠ h'.grown) || !vec.RowIsValid row) :=
  hides_eq (createAdditionalBuffer_holds hptrs hk) hrow

theorem number_described {type : NumberType} {validity : Nat → Bool} {data : Nat}
    (huse : (FlatVector.number type validity data).InUse s.heap.blocks rows) :
    ∃ desc s', createDataView env rows name (.number type validity data) s = .ok (desc, s') ∧
      desc.name = name ∧ s.Extends env.num s' ∧
        Described env rows desc s' (.number type validity data) s.heap := by
  unfold createDataView
  refine ⟨_, _, rfl, rfl, ?_, ?_⟩
  · exact (createValidity_extends _).trans ⟨.refl _, List.prefix_append .., id⟩
  · intro ptrs h hptrs hk
    have hvalidity := (List.prefix_append _ [data]).trans hptrs
    have hdata : ptrAt ptrs _ = data := ptrAt_append hptrs
    refine ⟨.data (some (ptrToUint8Array h (ptrAt ptrs s.dataPtrs.length) rows))
      ⟨h.grown, type.elementType, data, rows⟩, ?_, ?_⟩
    · rw [← hdata]
      cases type <;> rfl
    · intro h' hk' row hrow
      have hvalid : (FlatVector.number type validity data).RowIsValid row = validity row := rfl
      unfold resolve FlatVector.seen
      rw [validity_hides hvalidity (hk.trans hk') hrow, hvalid]
      by_cases hgrown : h.grown = h'.grown
      · have hdetached : decide (h.grown ≠ h'.grown) = false :=
          decide_eq_false (not_not_intro hgrown)
        rw [hdetached, Bool.false_or, Bool.false_and, if_neg Bool.false_ne_true]
        unfold FlatVector.valueAt
        cases validity row with
        | false => rfl
        | true =>
          obtain ⟨b, hb, hspans⟩ := huse
          have hkeeps : s.heap.Keeps h' := ((createValidity_extends _).heap.trans hk).trans hk'
          have hload := hkeeps.load env.num hb (spans_element hspans hrow)
          unfold View.get View.size
          dsimp only
          rw [if_pos hgrown, if_pos hrow, hload]
          rfl
      · rw [decide_eq_true hgrown]
        rfl

theorem readStrings_get {h : Heap N} {validity : Option View} {raw lengths : View} {row : Nat}
    (hrow : row < rows) :
    (readStrings env h rows validity raw lengths)[row]? =
      some (if hides env h row validity then none
        else some (TextDecoder.decode (loadBytes env.num h.cells
          (addressAt env h raw row) (addressAt env h lengths row)))) := by
  unfold readStrings
  rw [List.getElem?_map, List.getElem?_range hrow]
  rfl

theorem varchar_described {validity : Nat → Bool} {data size : Nat → Nat}
    (huse : (FlatVector.varchar validity data size).InUse s.heap.blocks rows) :
    ∃ desc s', createDataView env rows name (.varchar validity data size) s = .ok (desc, s') ∧
      desc.name = name ∧ s.Extends env.num s' ∧
        Described env rows desc s' (.varchar validity data size) s.heap := by
  let s₁ := createValidity env rows (.varchar validity data size) s
  let s₂ := createAdditionalBuffer env rows .float64 (fun row => env.num.ofNat (data row)) s₁
  let s₃ := createAdditionalBuffer env rows .float64 (fun row => env.num.ofNat (size row)) s₂
  have hs₁ : s.Extends env.num s₁ := createValidity_extends _
  have hs₂ : s₁.Extends env.num s₂ := createAdditionalBuffer_extends ..
  have hs₃ : s₂.Extends env.num s₃ := createAdditionalBuffer_extends ..
  unfold createDataView
  refine ⟨_, s₃, rfl, rfl, (hs₁.trans hs₂).trans hs₃, ?_⟩
  intro ptrs h hptrs hk
  let validityView := ptrToUint8Array h (ptrAt ptrs s.dataPtrs.length) rows
  let raw : View := ⟨h.grown, .float64, ptrAt ptrs s₁.dataPtrs.length, rows⟩
  let lengths : View := ⟨h.grown, .float64, ptrAt ptrs s₂.dataPtrs.length, rows⟩
  refine ⟨.strings (readStrings env h rows (some validityView) raw lengths), rfl, ?_⟩
  intro h' hk' row hrow
  have hvalid : (FlatVector.varchar validity data size).RowIsValid row = validity row := rfl
  have hattached : decide (h.grown ≠ h.grown) = false := decide_eq_false (not_not_intro rfl)
  have hhides : hides env h row (some validityView) = !validity row := by
    rw [validity_hides ((hs₂.trans hs₃).dataPtrs.trans hptrs) ((hs₂.trans hs₃).heap.trans hk) hrow,
      hattached, hvalid, Bool.false_or]
  have hdata : addressAt env h raw row = data row :=
    addressAt_eq hrow
      (createAdditionalBuffer_holds (hs₃.dataPtrs.trans hptrs) (hs₃.heap.trans hk))
  have hsize : addressAt env h lengths row = size row :=
    addressAt_eq hrow (createAdditionalBuffer_holds hptrs hk)
  unfold resolve FlatVector.seen FlatVector.valueAt FlatVector.isVarchar
  rw [readStrings_get hrow, hhides, hdata, hsize, Bool.not_true, Bool.and_false,
    if_neg Bool.false_ne_true]
  cases hval : validity row with
  | false => rfl
  | true =>
    obtain ⟨b, hb, hspans⟩ := huse row hrow hval
    have hkeeps : s.heap.Keeps h := (((hs₁.trans hs₂).trans hs₃).heap).trans hk
    rw [hkeeps.loadBytes env.num hb hspans]
    rfl

mutual

/-- **What is described of a vector is what is seen of it.** The induction is on the vector. -/
theorem createDataView_spec : ∀ (vec : FlatVector) (name : Option String) (s : Buffers N),
    vec.InUse s.heap.blocks rows →
      ∃ desc s', createDataView env rows name vec s = .ok (desc, s') ∧ desc.name = name ∧
        s.Extends env.num s' ∧ Described env rows desc s' vec s.heap
  | .number .., _, _, huse => number_described huse
  | .varchar .., _, _, huse => varchar_described huse
  | .struct validity entries, name, s, huse => by
    let s₁ := createValidity env rows (.struct validity entries) s
    have hs₁ : s.Extends env.num s₁ := createValidity_extends _
    obtain ⟨descs, s₂, hviews, hs₂, hdescribed⟩ := createDataViews_spec entries s₁
      (StructEntries.InUse.mono hs₁.heap.blocks huse)
    unfold createDataView
    dsimp only
    rw [hviews]
    refine ⟨_, s₂, rfl, rfl, hs₁.trans hs₂, ?_⟩
    intro ptrs h hptrs hk
    obtain ⟨rs, hbuild, hresolve⟩ := hdescribed ptrs h hptrs hk
    refine ⟨.struct (some (ptrToUint8Array h (ptrAt ptrs s.dataPtrs.length) rows)) rs, ?_, ?_⟩
    · show (buildResolvers env ptrs h rows descs >>= _) = _
      rw [hbuild]
      rfl
    · intro h' hk' row hrow
      have hvalid : (FlatVector.struct validity entries).RowIsValid row = validity row := rfl
      unfold resolve FlatVector.seen
      rw [validity_hides (hs₂.dataPtrs.trans hptrs) ((hs₂.heap.trans hk).trans hk') hrow, hvalid]
      by_cases hgrown : h.grown = h'.grown
      · have hdetached : decide (h.grown ≠ h'.grown) = false :=
          decide_eq_false (not_not_intro hgrown)
        rw [hdetached, Bool.false_or, Bool.false_and, if_neg Bool.false_ne_true,
          hresolve h' hk' hgrown row hrow, StructEntries.valuesAt_keeps hs₁.heap hrow huse]
        unfold FlatVector.valueAt
        cases validity row <;> rfl
      · rw [decide_eq_true hgrown]
        rfl

theorem createDataViews_spec : ∀ (entries : StructEntries) (s : Buffers N),
    entries.InUse s.heap.blocks rows →
      ∃ descs s', createDataViews env rows entries s = .ok (descs, s') ∧ s.Extends env.num s' ∧
        EntriesDescribed env rows descs s' entries s.heap
  | .nil, s, _ => by
    unfold createDataViews
    refine ⟨[], s, rfl, ⟨.refl _, List.prefix_refl _, id⟩, ?_⟩
    intro ptrs h _ _
    refine ⟨[], rfl, ?_⟩
    intro h' _ _ row _
    unfold resolveChildren StructEntries.valuesAt
    rfl
  | .cons name entry entries, s, huse => by
    obtain ⟨desc, s₁, hview, hname, hs₁, hdescribed⟩ :=
      createDataView_spec entry (some name) s huse.1
    obtain ⟨descs, s₂, hviews, hs₂, hdescribeds⟩ := createDataViews_spec entries s₁
      (StructEntries.InUse.mono hs₁.heap.blocks huse.2)
    unfold createDataViews
    rw [hview]
    show ∃ descs s', (createDataViews env rows entries s₁ >>= _) = _ ∧ _
    rw [hviews]
    refine ⟨desc :: descs, s₂, rfl, hs₁.trans hs₂, ?_⟩
    intro ptrs h hptrs hk
    obtain ⟨r, hbuild, hresolve⟩ := hdescribed ptrs h (hs₂.dataPtrs.trans hptrs) (hs₂.heap.trans hk)
    obtain ⟨rs, hbuilds, hresolves⟩ := hdescribeds ptrs h hptrs hk
    refine ⟨(name, r) :: rs, ?_, ?_⟩
    · show (buildResolver env ptrs h rows desc >>= _) = _
      rw [hbuild]
      show (buildResolvers env ptrs h rows descs >>= _) = _
      rw [hbuilds, hname]
      rfl
    · intro h' hk' hgrown row hrow
      have hdetached : decide (h.grown ≠ h'.grown) = false :=
        decide_eq_false (not_not_intro hgrown)
      unfold resolveChildren StructEntries.valuesAt
      rw [hresolve h' hk' row hrow, hresolves h' hk' hgrown row hrow, hdetached,
        StructEntries.valuesAt_keeps hs₁.heap hrow huse.2]
      rfl

end

theorem FlatVector.seen_keeps {h h' : Heap N} {vec : FlatVector} {detached : Bool} {row : Nat}
    (hk : h.Keeps h') (hrow : row < rows) (huse : vec.InUse h.blocks rows) :
    vec.seen env detached h' row = vec.seen env detached h row := by
  unfold FlatVector.seen
  rw [FlatVector.valueAt_keeps hk hrow huse]

/-- **The arguments of a row are what is seen of the columns in it.** -/
theorem createColumnViews_spec : ∀ (columns : List FlatVector) (s : Buffers N),
    (∀ vec ∈ columns, vec.InUse s.heap.blocks rows) →
      ∃ descs s', createColumnViews env rows columns s = .ok (descs, s') ∧
        s.Extends env.num s' ∧ ∀ ptrs h, s'.dataPtrs <+: ptrs → s'.heap.Keeps h →
          ∃ rs, buildArgResolvers env ptrs h rows descs = .ok rs ∧
            ∀ h', h.Keeps h' → ∀ row, row < rows →
              rs.map (fun r => resolve env h' row r) =
                columns.map fun vec => vec.seen env (decide (h.grown ≠ h'.grown)) s.heap row := by
  intro columns
  induction columns with
  | nil =>
    intro s _
    refine ⟨[], s, rfl, ⟨.refl _, List.prefix_refl _, id⟩, fun ptrs h _ _ => ⟨[], rfl, ?_⟩⟩
    intro h' _ row _
    rfl
  | cons vec columns ih =>
    intro s huse
    obtain ⟨desc, s₁, hview, -, hs₁, hdescribed⟩ :=
      createDataView_spec vec none s (huse vec (List.mem_cons_self ..))
    have huse₁ : ∀ vec ∈ columns, vec.InUse s₁.heap.blocks rows := fun c hc =>
      FlatVector.InUse.mono hs₁.heap.blocks (huse c (List.mem_cons_of_mem _ hc))
    obtain ⟨descs, s₂, hviews, hs₂, hdescribeds⟩ := ih s₁ huse₁
    refine ⟨desc :: descs, s₂, ?_, hs₁.trans hs₂, ?_⟩
    · unfold createColumnViews
      rw [hview]
      show (createColumnViews env rows columns s₁ >>= _) = _
      rw [hviews]
      rfl
    · intro ptrs h hptrs hk
      obtain ⟨r, hbuild, hresolve⟩ :=
        hdescribed ptrs h (hs₂.dataPtrs.trans hptrs) (hs₂.heap.trans hk)
      obtain ⟨rs, hbuilds, hresolves⟩ := hdescribeds ptrs h hptrs hk
      refine ⟨r :: rs, ?_, ?_⟩
      · unfold buildArgResolvers
        rw [hbuild, hbuilds]
        rfl
      · intro h' hk' row hrow
        rw [List.map_cons, List.map_cons, hresolve h' hk' row hrow, hresolves h' hk' row hrow]
        congr 1
        refine List.map_congr_left fun c hc => ?_
        exact FlatVector.seen_keeps hs₁.heap hrow (huse c (List.mem_cons_of_mem _ hc))

end Described

/-! ## Where the arguments are seen as they are -/

section Plain

variable [DecidableEq N] {num : Numbers N} {h : Heap N} {row : Nat}

mutual

/-- A value is decoded as it is exactly where no string in it starts with a byte order mark. -/
theorem FlatVector.decode_iff : ∀ {vec : FlatVector},
    vec.valueAt num TextDecoder.decode h row = vec.valueAt num TextDecoder.text h row ↔
      vec.Unmarked num h row
  | .number type validity data => by
    unfold FlatVector.valueAt FlatVector.Unmarked
    exact iff_of_true rfl trivial
  | .varchar validity data size => by
    unfold FlatVector.valueAt FlatVector.Unmarked
    cases validity row with
    | false => exact iff_of_true rfl fun hvalid => absurd hvalid Bool.false_ne_true
    | true =>
      rw [if_pos rfl, if_pos rfl, JsVal.str.injEq, TextDecoder.decode_eq_iff]
      exact ⟨fun hmark _ => hmark, fun hmark => hmark rfl⟩
  | .struct validity entries => by
    unfold FlatVector.valueAt FlatVector.Unmarked
    cases validity row with
    | false => exact iff_of_true rfl fun hvalid => absurd hvalid Bool.false_ne_true
    | true =>
      rw [if_pos rfl, if_pos rfl, JsVal.object.injEq, StructEntries.decode_iff]
      exact ⟨fun hmarks _ => hmarks, fun hmarks => hmarks rfl⟩
  | .other _ _ => by
    unfold FlatVector.valueAt FlatVector.Unmarked
    exact iff_of_true rfl trivial

theorem StructEntries.decode_iff : ∀ {entries : StructEntries},
    entries.valuesAt num TextDecoder.decode h row = entries.valuesAt num TextDecoder.text h row ↔
      entries.Unmarked num h row
  | .nil => by
    unfold StructEntries.valuesAt StructEntries.Unmarked
    exact iff_of_true rfl trivial
  | .cons name entry entries => by
    unfold StructEntries.valuesAt StructEntries.Unmarked
    rw [List.cons.injEq, Prod.mk.injEq, FlatVector.decode_iff, StructEntries.decode_iff]
    exact ⟨fun heq => ⟨heq.1.2, heq.2⟩, fun heq => ⟨⟨rfl, heq.1⟩, heq.2⟩⟩

end

/-- A value of a supported type is null exactly where the row is not valid. -/
theorem FlatVector.valueAt_eq_null {blocks : List Block} {rows : Nat} {vec : FlatVector}
    {decode : List UInt8 → String} (huse : vec.InUse blocks rows) :
    vec.valueAt num decode h row = .null ↔ vec.RowIsValid row = false := by
  cases vec with
  | number type validity data =>
    unfold FlatVector.valueAt
    show _ ↔ validity row = false
    cases validity row <;> simp
  | varchar validity data size =>
    unfold FlatVector.valueAt
    show _ ↔ validity row = false
    cases validity row <;> simp
  | struct validity entries =>
    unfold FlatVector.valueAt
    show _ ↔ validity row = false
    cases validity row <;> simp
  | other sqlType validity => exact absurd huse id

/-- **A vector is seen as it is in a row exactly where no string starts with a byte order mark and,
if its views are detached, it is a VARCHAR or null.** -/
theorem FlatVector.seen_iff {env : Env N} {blocks : List Block} {rows : Nat} {vec : FlatVector}
    {detached : Bool} (huse : vec.InUse blocks rows) :
    vec.seen env detached h row = vec.valueAt env.num TextDecoder.text h row ↔
      vec.Unmarked env.num h row ∧
        (detached = true → vec.isVarchar = true ∨ vec.RowIsValid row = false) := by
  unfold FlatVector.seen
  split
  next hgone =>
    rw [Bool.and_eq_true, Bool.not_eq_true'] at hgone
    rw [eq_comm, FlatVector.valueAt_eq_null huse]
    constructor
    · intro hnull
      refine ⟨?_, fun _ => .inr hnull⟩
      rw [← FlatVector.decode_iff, (FlatVector.valueAt_eq_null huse).mpr hnull,
        (FlatVector.valueAt_eq_null huse).mpr hnull]
    · rintro ⟨-, hseen⟩
      rcases hseen hgone.1 with hvarchar | hnull
      · rw [hgone.2] at hvarchar
        cases hvarchar
      · exact hnull
  next hthere =>
    rw [FlatVector.decode_iff]
    refine ⟨fun hmark => ⟨hmark, fun hdetached => .inl ?_⟩, fun hboth => hboth.1⟩
    rw [hdetached, Bool.true_and, Bool.not_eq_true', Bool.not_eq_false] at hthere
    exact hthere

end Plain

end Haybarn.Udf
