import Mathlib
import Haybarn.Udf.Arguments

/-!
# The result of a call

`callScalarUDF` allocates a block for the results and one for their validity, fills them row by
row (`Filled.row`) and leaves their addresses in a third (`storePointers_at`). A result of a
numeric type is read as it was written: `call_numeric` says that the result vector holds what
the function returns of what it sees of the arguments. Where the array of the results has no
elements the call fails (`call_error`).
-/

namespace Haybarn.Udf

open Haybarn.Lib Haybarn.Lib.TypedHeap

variable {N : Type}

/-- What a function returns, as a value of the result type. -/
def ReturnType.expected [DecidableEq N] (env : Env N) (ret : ReturnType) (res : JsVal N) :
    Option (Value N) :=
  if res.isNullish then none
  else if ret.physicalType = .VARCHAR then some (.text (textEncode (env.toText res)))
  else
    match elementType ret.physicalType with
    | some k => some (.number (env.num.convert k (env.toNumber res)))
    | none => some (.number (env.toNumber res))

/-! ## The blocks of the result -/

section Results

variable (env : Env N) (h : Heap N) (rows : Nat) (ptype : PhysicalType)

def resultDataPtr : Nat := mallocPtr env h (rows * getTypeSize ptype)

/-- The memory with the block of the result data. -/
def dataHeap : Heap N := malloc env 0 h (rows * getTypeSize ptype)

def resultValidityPtr : Nat := mallocPtr env (dataHeap env h rows ptype) rows

/-- The memory with both blocks. -/
def resultHeap : Heap N := malloc env 1 (dataHeap env h rows ptype) rows

def resultData : View :=
  ptrToArray (dataHeap env h rows ptype) (resultDataPtr env h rows ptype) ptype rows

def resultValidity : View :=
  ptrToUint8Array (resultHeap env h rows ptype) (resultValidityPtr env h rows ptype) rows

/-- What follows the calls. -/
def finish (s : Progress N) : Nat × Heap N :=
  if ptype = .VARCHAR then
    storePointers env 4 (encodeStrings env (resultData env h rows ptype) rows s)
      (resultDataPtr env h rows ptype) (resultValidityPtr env h rows ptype)
      (mallocPtr env s.heap (rows * getTypeSize .DOUBLE))
  else
    storePointers env 2 s.heap (resultDataPtr env h rows ptype)
      (resultValidityPtr env h rows ptype) 0

variable {env h rows ptype}

theorem typeSize_of_element {k : ElementType} (hk : elementType ptype = some k) :
    getTypeSize ptype = k.size := by
  cases ptype <;> cases hk <;> rfl

theorem keeps_resultHeap : h.Keeps (resultHeap env h rows ptype) :=
  Heap.keeps_malloc.trans Heap.keeps_malloc

variable (env h rows) in
theorem resultData_eq {k : ElementType} (hk : elementType ptype = some k) :
    resultData env h rows ptype =
      ⟨(dataHeap env h rows ptype).grown, k, resultDataPtr env h rows ptype, rows⟩ := by
  unfold resultData ptrToArray
  rw [hk]

variable (env h rows ptype) in
theorem resultValidity_size : (resultValidity env h rows ptype).size
    (resultHeap env h rows ptype) = rows := if_pos rfl

theorem resultHeap_grown (hfixed : env.grows 1 = false) :
    (resultHeap env h rows ptype).grown = (dataHeap env h rows ptype).grown := by
  show (if env.grows 1 then _ else _) = _
  rw [hfixed]
  rfl

variable (env h rows) in
/-- The result data have their elements unless the second block has made the memory grow. -/
theorem resultData_size {k : ElementType} (hk : elementType ptype = some k)
    (hfixed : env.grows 1 = false) :
    (resultData env h rows ptype).size (resultHeap env h rows ptype) = rows := by
  rw [resultData_eq env h rows hk]
  unfold View.size
  rw [resultHeap_grown hfixed, if_pos rfl]

theorem resultData_empty (hempty : rows = 0 ∨ elementType ptype = none ∨ env.grows 1 = true) :
    (resultData env h rows ptype).size (resultHeap env h rows ptype) = 0 := by
  cases htype : elementType ptype with
  | none =>
    unfold resultData ptrToArray View.size
    rw [htype]
    exact ite_self 0
  | some k =>
    rw [resultData_eq env h rows htype]
    unfold View.size
    split
    next hgrown =>
      rcases hempty with hrows | hnone | hgrows
      · exact hrows
      · rw [htype] at hnone
        cases hnone
      · change (dataHeap env h rows ptype).grown =
          if env.grows 1 then (dataHeap env h rows ptype).grown + 1 else _ at hgrown
        rw [hgrows, if_pos rfl] at hgrown
        omega
    next => rfl

/-- The data are not in a block that was in use. -/
theorem dataView_new {k : ElementType} (hk : elementType ptype = some k) :
    ∀ b ∈ h.blocks, b.Apart (resultData env h rows ptype).ptr
      ((resultData env h rows ptype).length * (resultData env h rows ptype).type.size) := by
  intro b hb
  rw [resultData_eq env h rows hk]
  dsimp only
  rw [← typeSize_of_element hk]
  exact env.allocator.apart h.blocks _ b hb

theorem validityBlock_new {b : Block} (hb : b ∈ (dataHeap env h rows ptype).blocks) :
    b.Apart (resultValidity env h rows ptype).ptr
      ((resultValidity env h rows ptype).length * (resultValidity env h rows ptype).type.size) := by
  have hapart := env.allocator.apart (dataHeap env h rows ptype).blocks rows b hb
  have hsize : rows * ElementType.uint8.size = rows := Nat.mul_one rows
  show b.Apart _ (rows * ElementType.uint8.size)
  rw [hsize]
  exact hapart

theorem validityView_new : ∀ b ∈ h.blocks, b.Apart (resultValidity env h rows ptype).ptr
    ((resultValidity env h rows ptype).length * (resultValidity env h rows ptype).type.size) :=
  fun _ hb => validityBlock_new (List.mem_cons_of_mem _ hb)

variable (env h rows) in
/-- The two arrays of the result have nothing in common. -/
theorem dataView_apart {k : ElementType} (hk : elementType ptype = some k) :
    (resultData env h rows ptype).Apart (resultValidity env h rows ptype) := by
  have hnew : ⟨resultDataPtr env h rows ptype, rows * getTypeSize ptype⟩ ∈
      (dataHeap env h rows ptype).blocks := List.mem_cons_self ..
  have hapart := validityBlock_new hnew
  rw [resultData_eq env h rows hk]
  unfold View.Apart
  rw [← typeSize_of_element hk]
  exact hapart

/-- The call, given what it makes of the arguments. -/
theorem callScalarUDF_eq [DecidableEq N] {runtime : Nat → Option (UDFFunction N)} {funcId : Nat}
    {udf : UDFFunction N} {args : List ArgumentTypeDescription} {ptrs : List Nat}
    {resolvers : List Resolver} (hfun : runtime funcId = some udf)
    (hbuild : buildArgResolvers env ptrs h rows args = .ok resolvers) :
    callScalarUDF env runtime funcId h rows args ptype ptrs =
      if (resultData env h rows ptype).size (resultHeap env h rows ptype) = 0 ∨
          (resultValidity env h rows ptype).size (resultHeap env h rows ptype) = 0 then
        .error "Can't create physical arrays for result"
      else
        callRows env udf ptype resolvers (resultData env h rows ptype)
          (resultValidity env h rows ptype) (resultHeap env h rows ptype) rows >>=
            fun s => .ok (finish env h rows ptype s) := by
  unfold callScalarUDF
  rw [hfun]
  show (buildArgResolvers env ptrs h rows args >>= _) = _
  rw [hbuild]
  unfold finish
  by_cases hvarchar : ptype = .VARCHAR
  · simp only [if_pos hvarchar]
    rfl
  · simp only [if_neg hvarchar]
    rfl

/-- All rows of the call. -/
def callAllRows [DecidableEq N] (env : Env N) (udf : UDFFunction N) (ptype : PhysicalType)
    (resolvers : List Resolver) (h : Heap N) (rows : Nat) : Except String (Progress N) :=
  callRows env udf ptype resolvers (resultData env h rows ptype) (resultValidity env h rows ptype)
    (resultHeap env h rows ptype) rows

/-- What the call makes of the arguments in `h`: a memory that has them, and resolvers. -/
structure Arranged [DecidableEq N] (env : Env N) (h : Heap N) (rows : Nat)
    (columns : List FlatVector) (h₁ : Heap N) (resolvers : List Resolver) : Prop where
  clear : h.Clear env.num → h₁.Clear env.num
  args : ∀ h', h₁.Keeps h' → ∀ row, row < rows →
    resolvers.map (fun r => resolve env h' row r) =
      columns.map fun vec => vec.seen env (decide (h₁.grown ≠ h'.grown)) h row

variable (env) in
/-- The call, as what is done with the arguments it has arranged. -/
theorem CallScalarUDFFunction_eq [DecidableEq N] {runtime : Nat → Option (UDFFunction N)}
    {funcId : Nat} {udf : UDFFunction N} {columns : List FlatVector} (ret : ReturnType)
    (huse : ∀ vec ∈ columns, vec.InUse h.blocks rows) (hfun : runtime funcId = some udf)
    (htype : ret.physicalType = ptype) :
    ∃ h₁ resolvers, Arranged env h rows columns h₁ resolvers ∧
      CallScalarUDFFunction env runtime funcId h rows columns ret =
        if (resultData env h₁ rows ptype).size (resultHeap env h₁ rows ptype) = 0 ∨
            (resultValidity env h₁ rows ptype).size (resultHeap env h₁ rows ptype) = 0 then
          .error "Can't create physical arrays for result"
        else
          callAllRows env udf ptype resolvers h₁ rows >>= fun s =>
            .ok (receive env ret rows (finish env h₁ rows ptype s).1
              (finish env h₁ rows ptype s).2) := by
  obtain ⟨descs, views, hviews, hextends, hargs⟩ := createColumnViews_spec columns ⟨h, []⟩ huse
  obtain ⟨resolvers, hbuild, hresolve⟩ :=
    hargs views.dataPtrs views.heap (List.prefix_refl _) (.refl _)
  refine ⟨views.heap, resolvers, ⟨hextends.clear, hresolve⟩, ?_⟩
  unfold CallScalarUDFFunction
  rw [hviews, htype]
  show (callScalarUDF env runtime funcId views.heap rows descs ptype views.dataPtrs >>= _) = _
  rw [callScalarUDF_eq hfun hbuild]
  split
  next => rfl
  next =>
    unfold callAllRows
    cases callRows env udf ptype resolvers (resultData env views.heap rows ptype)
      (resultValidity env views.heap rows ptype) (resultHeap env views.heap rows ptype) rows <;> rfl

/-- A row of a function that does not throw. -/
theorem callRow_eq [DecidableEq N] {f : List (JsVal N) → JsVal N} {resolvers : List Resolver}
    {data validity : View} {n : Nat} {s : Progress N} {res : JsVal N}
    (hres : f (resolvers.map fun r => resolve env s.heap n r) = res) :
    callRow env (fun args => .ok (f args)) ptype resolvers data validity n s =
      .ok {
        heap := validity.set
          (if ptype = .VARCHAR then s.heap else data.set s.heap env.num n (env.toNumber res))
          env.num n (env.num.ofNat (if res.isNullish then 0 else 1))
        rawResultData := s.rawResultData ++ [res] } := by
  rw [← hres]
  rfl

/-- A property that each row keeps holds after all of them. -/
theorem callRows_induct [DecidableEq N] {udf : UDFFunction N} {resolvers : List Resolver}
    {data validity : View} {h₁ : Heap N} {P : Nat → Progress N → Prop} (hinit : P 0 ⟨h₁, []⟩)
    (hstep : ∀ n s, n < rows → P n s →
      ∃ s', callRow env udf ptype resolvers data validity n s = .ok s' ∧ P (n + 1) s') :
    ∀ n, n ≤ rows →
      ∃ s, callRows env udf ptype resolvers data validity h₁ n = .ok s ∧ P n s := by
  intro n
  induction n with
  | zero =>
    intro _
    exact ⟨_, rfl, hinit⟩
  | succ n ih =>
    intro hn
    obtain ⟨s, hrows, hs⟩ := ih (by omega)
    obtain ⟨s', hrow, hs'⟩ := hstep n s (by omega) hs
    refine ⟨s', ?_, hs'⟩
    unfold callRows
    rw [hrows]
    exact hrow

/-- The pointers of the result are where the response says. -/
structure PointersAt [DecidableEq N] (env : Env N) (h : Heap N)
    (retPtr data validity lengths : Nat) : Prop where
  data : env.num.toNat (load env.num h.cells .float64 (retPtr + 0 * 8)) = data
  validity : env.num.toNat (load env.num h.cells .float64 (retPtr + 1 * 8)) = validity
  lengths : env.num.toNat (load env.num h.cells .float64 (retPtr + 2 * 8)) = lengths

/-- The result vector by its three pointers. -/
theorem receive_eq [DecidableEq N] {ret : ReturnType} {retPtr data validity lengths : Nat}
    (hptrs : PointersAt env h retPtr data validity lengths) :
    receive env ret rows retPtr h = (List.range rows).map fun row =>
      if load env.num h.cells .uint8 (validity + row) = env.num.ofNat 0 then none
      else some (receiveValue env ret h data lengths row) := by
  obtain ⟨rfl, rfl, rfl⟩ := hptrs
  rfl

theorem storePointers_keeps {number data validity lengths : Nat} :
    h.Keeps (storePointers env number h data validity lengths).2 :=
  View.keeps_setAll (env.allocator.apart h.blocks (3 * 8)) _ Heap.keeps_malloc

theorem storePointers_at [DecidableEq N] {number data validity lengths : Nat} :
    PointersAt env (storePointers env number h data validity lengths).2
      (storePointers env number h data validity lengths).1 data validity lengths := by
  let retHeap := malloc env number h (3 * 8)
  let retBuffer := ptrToFloat64Array retHeap (mallocPtr env h (3 * 8)) 3
  have hsize : retBuffer.size retHeap = 3 := if_pos rfl
  have hread : ∀ j, (hj : j < 3) → env.num.toNat (load env.num
      (storePointers env number h data validity lengths).2.cells .float64
        ((storePointers env number h data validity lengths).1 + j * 8)) =
      [data, validity, lengths][j] := by
    intro j hj
    let stored := [data, validity, lengths].map env.num.ofNat
    have hload : load env.num (retBuffer.setAll env.num retHeap 0 stored).cells .float64
        (retBuffer.ptr + (0 + j) * 8) = env.num.convert .float64 (stored.get ⟨j, hj⟩) :=
      View.load_setAll (by rw [hsize]; exact Nat.le_refl 3) hj
    rw [Nat.zero_add] at hload
    refine (congrArg env.num.toNat hload).trans ?_
    have hstored : stored.get ⟨j, hj⟩ = env.num.ofNat [data, validity, lengths][j] :=
      List.getElem_map ..
    rw [env.num.convert_float64, hstored, env.num.toNat_ofNat]
  exact ⟨hread 0 (by omega), hread 1 (by omega), hread 2 (by omega)⟩

end Results

/-! ## Numbers -/

section Numeric

variable [DecidableEq N] {env : Env N} {h : Heap N} {rows : Nat} {ptype : PhysicalType}
  {k : ElementType}

/-- The results of the first `n` rows are in their blocks, and the arguments where they were. -/
structure Filled (env : Env N) (h : Heap N) (rows : Nat) (ptype : PhysicalType)
    (results : Nat → JsVal N) (n : Nat) (s : Progress N) : Prop where
  keeps : h.Keeps s.heap
  blocks : s.heap.blocks = (resultHeap env h rows ptype).blocks
  grown : s.heap.grown = (resultHeap env h rows ptype).grown
  data : (resultData env h rows ptype).Filled env.num s.heap (fun i => env.toNumber (results i)) n
  validity : (resultValidity env h rows ptype).Filled env.num s.heap
    (fun i => env.num.ofNat (if (results i).isNullish then 0 else 1)) n

/-- **One row** adds its result to the results. -/
theorem Filled.row {results : Nat → JsVal N} {n : Nat} {s : Progress N}
    {f : List (JsVal N) → JsVal N} {resolvers : List Resolver}
    (hk : elementType ptype = some k) (hptype : ptype ≠ .VARCHAR) (hfixed : env.grows 1 = false)
    (hn : n < rows) (hs : Filled env h rows ptype results n s)
    (hargs : f (resolvers.map fun r => resolve env s.heap n r) = results n) :
    ∃ s', callRow env (fun args => .ok (f args)) ptype resolvers (resultData env h rows ptype)
        (resultValidity env h rows ptype) n s = .ok s' ∧
      Filled env h rows ptype results (n + 1) s' := by
  let stored := (resultData env h rows ptype).set s.heap env.num n (env.toNumber (results n))
  have hdata := resultData_eq env h rows hk
  have hapart := dataView_apart env h rows hk
  have hgrown : stored.grown = (resultHeap env h rows ptype).grown := View.set_grown.trans hs.grown
  -- both arrays are still attached
  have hattached : n < (resultData env h rows ptype).size s.heap := by
    have hsize := resultData_size env h rows hk hfixed
    unfold View.size at hsize ⊢
    rw [hs.grown, hsize]
    exact hn
  have hattached' : n < (resultValidity env h rows ptype).size stored := by
    have hsize := resultValidity_size env h rows ptype
    unfold View.size at hsize ⊢
    rw [hgrown, hsize]
    exact hn
  have hkeeps : h.Keeps stored := View.keeps_set hs.keeps (dataView_new hk)
  refine ⟨_, (callRow_eq hargs).trans (by rw [if_neg hptype]), ?_, ?_, ?_, ?_, ?_⟩
  · exact View.keeps_set hkeeps validityView_new
  · exact (View.set_blocks.trans View.set_blocks).trans hs.blocks
  · exact View.set_grown.trans hgrown
  · refine (hs.data.set hattached).set_apart hapart ?_
    rw [hdata]
    exact hn
  · exact (hs.validity.set_apart hapart.symm (Nat.le_of_lt hn)).set hattached'

theorem filled_init {results : Nat → JsVal N} :
    Filled env h rows ptype results 0 ⟨resultHeap env h rows ptype, []⟩ :=
  ⟨keeps_resultHeap, rfl, rfl, fun i hi => absurd hi (Nat.not_lt_zero i),
    fun i hi => absurd hi (Nat.not_lt_zero i)⟩

omit [DecidableEq N] in
/-- The views of the arguments are detached if the first block makes the memory grow. -/
theorem detached_eq (hfixed : env.grows 1 = false) :
    decide (h.grown ≠ (resultHeap env h rows ptype).grown) = env.grows 0 := by
  rw [resultHeap_grown hfixed]
  show decide (h.grown ≠ if env.grows 0 then h.grown + 1 else h.grown) = _
  cases env.grows 0 with
  | false => exact decide_eq_false (not_not_intro rfl)
  | true => exact decide_eq_true (Nat.ne_of_lt (Nat.lt_succ_self _))

/-- The result vector is read as it was written. -/
theorem receive_numeric {ret : ReturnType} {results : Nat → JsVal N} {retPtr lengths : Nat}
    {h' : Heap N} (hk : elementType ret.physicalType = some k)
    (hptype : ret.physicalType ≠ .VARCHAR)
    (hptrs : PointersAt env h' retPtr (resultDataPtr env h rows ret.physicalType)
      (resultValidityPtr env h rows ret.physicalType) lengths)
    (hdata : (resultData env h rows ret.physicalType).Filled env.num h'
      (fun i => env.toNumber (results i)) rows)
    (hvalidity : (resultValidity env h rows ret.physicalType).Filled env.num h'
      (fun i => env.num.ofNat (if (results i).isNullish then 0 else 1)) rows) :
    receive env ret rows retPtr h' =
      (List.range rows).map fun row => ret.expected env (results row) := by
  have hvarchar : ret.isVarchar = false := by
    cases hisVarchar : ret.isVarchar with
    | false => rfl
    | true => exact absurd (ret.varchar hisVarchar) hptype
  rw [receive_eq hptrs]
  refine List.map_congr_left fun row hrow => ?_
  have hrow' : row < rows := List.mem_range.mp hrow
  have hbit := hvalidity row hrow'
  have hval := hdata row hrow'
  rw [resultData_eq env h rows hk] at hval
  change load env.num h'.cells .uint8
    (resultValidityPtr env h rows ret.physicalType + row * 1) = env.num.convert .uint8 _ at hbit
  rw [Nat.mul_one] at hbit
  dsimp only at hval ⊢
  unfold receiveValue ReturnType.expected
  rw [hbit, hvarchar, if_neg Bool.false_ne_true, if_neg hptype,
    if_neg hptype, hk]
  dsimp only
  rw [hval, env.num.convert_small .uint8 _ (by split <;> omega)]
  cases (results row).isNullish with
  | true => exact if_pos rfl
  | false =>
    have hone : env.num.ofNat 1 ≠ env.num.ofNat 0 := fun heq =>
      Nat.one_ne_zero (env.num.ofNat_inj heq)
    exact if_neg hone

/-- **A call with a numeric result** gives DuckDB what the function returns of what it sees of the
arguments, unless the second block of the result makes the memory grow. -/
theorem call_numeric {ret : ReturnType} {columns : List FlatVector}
    {f : List (JsVal N) → JsVal N} {runtime : Nat → Option (UDFFunction N)} {funcId : Nat}
    (huse : ∀ vec ∈ columns, vec.InUse h.blocks rows)
    (hk : elementType ret.physicalType = some k) (hptype : ret.physicalType ≠ .VARCHAR)
    (hrows : 0 < rows) (hfixed : env.grows 1 = false)
    (hfun : runtime funcId = some (fun args => .ok (f args))) :
    CallScalarUDFFunction env runtime funcId h rows columns ret =
      .ok ((List.range rows).map fun row =>
        ret.expected env (f (columns.map fun vec => vec.seen env (env.grows 0) h row))) := by
  obtain ⟨h₁, resolvers, harranged, hcall⟩ := CallScalarUDFFunction_eq env ret huse hfun rfl
  let results := fun row => f (columns.map fun vec => vec.seen env (env.grows 0) h row)
  have hrun : ∃ s, callAllRows env (fun args => .ok (f args)) ret.physicalType resolvers h₁ rows =
      .ok s ∧ Filled env h₁ rows ret.physicalType results rows s := by
    refine callRows_induct filled_init (fun n s hn hs => ?_) rows (Nat.le_refl rows)
    refine Filled.row hk hptype hfixed hn hs ?_
    show f _ = f _
    rw [harranged.args s.heap hs.keeps n hn, hs.grown, detached_eq hfixed]
  obtain ⟨s, hcalls, hs⟩ := hrun
  rw [hcall, resultData_size env h₁ rows hk hfixed, resultValidity_size, if_neg (by omega), hcalls]
  show Except.ok (receive env ret rows (finish env h₁ rows ret.physicalType s).1
    (finish env h₁ rows ret.physicalType s).2) = _
  unfold finish
  rw [if_neg hptype, receive_numeric hk hptype storePointers_at
    (hs.data.keeps storePointers_keeps ?_ ?_)
    (hs.validity.keeps storePointers_keeps ?_ (Nat.le_refl rows))]
  · rw [hs.blocks, resultData_eq env h₁ rows hk]
    dsimp only
    rw [← typeSize_of_element hk]
    exact List.mem_cons_of_mem _ (List.mem_cons_self ..)
  · rw [resultData_eq env h₁ rows hk]
  · rw [hs.blocks]
    have hsize : rows * ElementType.uint8.size = rows := Nat.mul_one rows
    show Block.mk _ (rows * ElementType.uint8.size) ∈ _
    rw [hsize]
    exact List.mem_cons_self ..

/-- **A call fails** for an empty chunk, a result type without an array, and where the second block
of the result makes the memory grow: the array of the results is detached. -/
theorem call_error {ret : ReturnType} {columns : List FlatVector} {udf : UDFFunction N}
    {runtime : Nat → Option (UDFFunction N)} {funcId : Nat}
    (huse : ∀ vec ∈ columns, vec.InUse h.blocks rows) (hfun : runtime funcId = some udf)
    (hempty : rows = 0 ∨ elementType ret.physicalType = none ∨ env.grows 1 = true) :
    CallScalarUDFFunction env runtime funcId h rows columns ret =
      .error "Can't create physical arrays for result" := by
  obtain ⟨h₁, resolvers, -, hcall⟩ := CallScalarUDFFunction_eq env ret huse hfun rfl
  rw [hcall, resultData_empty hempty, if_pos (.inl rfl)]

end Numeric

end Haybarn.Udf
