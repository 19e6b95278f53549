import Mathlib
import Haybarn.Udf.Results

/-!
# Strings as results

For a VARCHAR result `callScalarUDF` stores in `resultData` where each string starts in the
buffer of the strings, and `CallScalarUDFFunction` takes that for an address. The string of the
first row starts at 0, so what DuckDB receives for it is read from the null pointer
(`call_varchar`). A BLOB has the same physical type, and DuckDB takes the numbers for `string_t`.
-/

namespace Haybarn.Udf

open Haybarn.Lib Haybarn.Lib.TypedHeap

variable {N : Type} {num : Numbers N}

/-! ## What stays zero -/

/-- Nothing but zero is at the null pointer and in the first result. -/
structure ZeroAt (num : Numbers N) (p : Nat) (h : Heap N) : Prop where
  null : (h.cells 0).value = num.ofNat 0
  first : ∀ j, p ≤ j → j < p + 8 → (h.cells j).value = num.ofNat 0

/-- An array that has nothing of either. -/
def Misses (p : Nat) (v : View) : Prop :=
  0 < v.ptr ∧ (v.ptr + v.length * v.type.size ≤ p ∨ p + 8 ≤ v.ptr)

section Zero

variable {p : Nat} {h : Heap N} {v : View}

theorem ZeroAt.set {i : Nat} {x : N} (hzero : ZeroAt num p h) (hmiss : Misses p v) :
    ZeroAt num p (v.set h num i x) := by
  obtain ⟨hpos, hout⟩ := hmiss
  refine ⟨?_, fun j hj hj' => ?_⟩
  · rw [View.set_out (by omega)]
    exact hzero.null
  · rw [View.set_out (by omega)]
    exact hzero.first j hj hj'

theorem ZeroAt.setAll (hmiss : Misses p v) : ∀ {h : Heap N} {i : Nat} (xs : List N),
    ZeroAt num p h → ZeroAt num p (v.setAll num h i xs) := by
  intro h i xs hzero
  induction xs generalizing h i with
  | nil => exact hzero
  | cons x xs ih => exact ih (hzero.set hmiss)

/-- Numbers may be stored in the array of the results itself, zero in the first row. -/
theorem ZeroAt.set_result {i grown rows : Nat} {x : N} (hzero : ZeroAt num p h) (hpos : 0 < p)
    (hfirst : i = 0 → x = num.ofNat 0) :
    ZeroAt num p ((View.mk grown .float64 p rows).set h num i x) := by
  unfold View.set
  split
  next =>
    refine ⟨?_, fun j hj hj' => ?_⟩
    · show (store _ _ _ _ 0).value = _
      rw [store_out (.inl (by dsimp only; omega))]
      exact hzero.null
    · show (store h.cells .float64 (p + i * 8) (num.convert .float64 x) j).value = _
      unfold store
      split
      next hin =>
        have hi : i = 0 := by
          change p + i * 8 ≤ j ∧ j < p + i * 8 + 8 at hin
          omega
        rw [hfirst hi]
        exact num.convert_float64 _
      next => exact hzero.first j hj hj'
  next => exact hzero

/-- A new block has nothing of the first result. -/
theorem misses_new (A : Allocator) (k : ElementType) (grown n : Nat) {m : Nat}
    (hb : ⟨p, m⟩ ∈ h.blocks) (hm : 8 ≤ m) :
    Misses p ⟨grown, k, A.place h.blocks (n * k.size), n⟩ := by
  have hapart := A.apart h.blocks (n * k.size) _ hb
  unfold Block.Apart at hapart
  dsimp only at hapart
  refine ⟨A.pos .., ?_⟩
  dsimp only
  omega

end Zero

/-! ## The strings in memory -/

section Strings

variable {env : Env N} {p rows : Nat} {h : Heap N}

theorem copyStrings_blocks {data strings : View} : ∀ (utf8s : List (List UInt8)) (h : Heap N)
    (row offset : Nat), (copyStrings env data strings h row offset utf8s).blocks = h.blocks := by
  intro utf8s
  induction utf8s with
  | nil =>
    intro h row offset
    rfl
  | cons utf8 utf8s ih =>
    intro h row offset
    unfold copyStrings
    dsimp only
    rw [ih, View.setAll_blocks, View.set_blocks]

/-- The offset of the first string is zero. -/
theorem ZeroAt.copyStrings {grown : Nat} {strings : View} (hpos : 0 < p)
    (hmiss : Misses p strings) : ∀ (utf8s : List (List UInt8)) (h : Heap N) (row offset : Nat),
    ZeroAt env.num p h → (row = 0 → offset = 0) →
      ZeroAt env.num p (copyStrings env ⟨grown, .float64, p, rows⟩ strings h row offset utf8s) := by
  intro utf8s
  induction utf8s with
  | nil =>
    intro h row offset hzero _
    exact hzero
  | cons utf8 utf8s ih =>
    intro h row offset hzero hfirst
    unfold Udf.copyStrings
    refine ih _ _ _ (ZeroAt.setAll hmiss _ ?_) fun hrow => absurd hrow (Nat.succ_ne_zero row)
    refine hzero.set_result hpos fun hrow => ?_
    rw [hfirst hrow]

theorem storePointers_zero {m number data validity lengths : Nat} (hzero : ZeroAt env.num p h)
    (hb : ⟨p, m⟩ ∈ h.blocks) (hm : 8 ≤ m) :
    ZeroAt env.num p (storePointers env number h data validity lengths).2 := by
  have hmalloc : ZeroAt env.num p (malloc env number h (3 * 8)) := ⟨hzero.null, hzero.first⟩
  exact hmalloc.setAll (misses_new env.allocator .float64 _ 3 hb hm) _

theorem encodeStrings_blocks {data : View} {s : Progress N} {b : Block} (hb : b ∈ s.heap.blocks) :
    b ∈ (encodeStrings env data rows s).blocks := by
  unfold encodeStrings
  dsimp only
  rw [copyStrings_blocks]
  refine List.mem_cons_of_mem _ ?_
  rw [View.setAll_blocks]
  exact List.mem_cons_of_mem _ hb

theorem encodeStrings_zero {grown m : Nat} {s : Progress N} (hpos : 0 < p)
    (hzero : ZeroAt env.num p s.heap) (hb : ⟨p, m⟩ ∈ s.heap.blocks) (hm : 8 ≤ m) :
    ZeroAt env.num p (encodeStrings env ⟨grown, .float64, p, rows⟩ rows s) := by
  let lengthsHeap := malloc env 2 s.heap (rows * getTypeSize .DOUBLE)
  let lengths := ptrToFloat64Array lengthsHeap
    (mallocPtr env s.heap (rows * getTypeSize .DOUBLE)) rows
  let utf8s := s.rawResultData.map (encodeResult env)
  let measured := lengths.setAll env.num lengthsHeap 0
    (utf8s.map fun utf8 => env.num.ofNat utf8.length)
  let total := (utf8s.map List.length).sum
  have hlengths : ZeroAt env.num p measured := by
    have hmalloc : ZeroAt env.num p lengthsHeap := ⟨hzero.null, hzero.first⟩
    exact hmalloc.setAll (misses_new env.allocator .float64 _ rows hb hm) _
  have hb' : ⟨p, m⟩ ∈ measured.blocks := by
    show _ ∈ (lengths.setAll env.num lengthsHeap 0 _).blocks
    rw [View.setAll_blocks]
    exact List.mem_cons_of_mem _ hb
  have hmiss := misses_new env.allocator .uint8 (malloc env 3 measured total).grown total hb' hm
  rw [show total * ElementType.uint8.size = total from Nat.mul_one total] at hmiss
  have hmalloc : ZeroAt env.num p (malloc env 3 measured total) := ⟨hlengths.null, hlengths.first⟩
  exact hmalloc.copyStrings hpos hmiss utf8s _ 0 0 fun _ => rfl

end Strings

/-! ## The call -/

section Call

variable [DecidableEq N] {env : Env N} {h : Heap N} {rows : Nat} {ret : ReturnType}

/-- What DuckDB takes for the first string is not `a`. -/
theorem receiveValue_zero {data lengths : Nat} (hptype : ret.physicalType = .VARCHAR)
    (hzero : ZeroAt env.num data h) :
    receiveValue env ret h data lengths 0 ≠ .text (textEncode "a") := by
  have hload : ∀ k : ElementType, k.size ≤ 8 →
      env.num.toNat (load env.num h.cells k (data + 0)) = 0 := by
    intro k hk
    rw [load_zero env.num fun j hj => hzero.first _ (by omega) (by omega), env.num.toNat_ofNat]
  have htext : textEncode "a" = [97] := by decide
  unfold receiveValue
  rw [htext, if_pos hptype]
  split
  · -- the address is zero, and so is the byte there
    rw [Nat.zero_mul, hload .float64 (Nat.le_refl 8)]
    intro heq
    have hbytes := Value.text.inj heq
    unfold loadBytes at hbytes
    have hbyte : env.num.toNat (load env.num h.cells .uint8 (0 + 0)) = 0 := by
      rw [load_zero env.num, env.num.toNat_ofNat]
      intro j hj
      obtain rfl : j = 0 := Nat.lt_one_iff.mp hj
      exact hzero.null
    obtain ⟨n, hn⟩ : ∃ n, env.num.toNat (load env.num h.cells .float64 (lengths + 0 * 8)) = n :=
      ⟨_, rfl⟩
    rw [hn] at hbytes
    cases n with
    | zero => cases hbytes
    | succ n =>
      rw [List.range_succ_eq_map, List.map_cons, hbyte] at hbytes
      cases hbytes
  · intro heq
    have hbytes := Value.text.inj heq
    unfold stringAt at hbytes
    rw [Nat.zero_mul, hload .uint32 (by decide)] at hbytes
    cases hbytes

/-- **A call with a string result** gives DuckDB another string than the function has returned. -/
theorem call_varchar {columns : List FlatVector} {runtime : Nat → Option (UDFFunction N)}
    {funcId : Nat} {out : List (Option (Value N))} (huse : ∀ vec ∈ columns, vec.InUse h.blocks rows)
    (hclear : h.Clear env.num) (hptype : ret.physicalType = .VARCHAR) (hrows : 0 < rows)
    (hfun : runtime funcId = some (fun _ => .ok (.str "a")))
    (hcall : CallScalarUDFFunction env runtime funcId h rows columns ret = .ok out) :
    out[0]? ≠ some (some (.text (textEncode "a"))) := by
  obtain ⟨h₁, resolvers, harranged, hrun⟩ := CallScalarUDFFunction_eq env ret huse hfun hptype
  have hclear₁ : h₁.Clear env.num := harranged.clear hclear
  let p := resultDataPtr env h₁ rows .VARCHAR
  have hpos : 0 < p := env.allocator.pos ..
  have hsize : 8 ≤ rows * 8 := Nat.le_mul_of_pos_left 8 hrows
  have hb : ⟨p, rows * 8⟩ ∈ (dataHeap env h₁ rows .VARCHAR).blocks := List.mem_cons_self ..
  have hzero : ZeroAt env.num p (resultHeap env h₁ rows .VARCHAR) := by
    refine ⟨hclear₁.null, fun j hj hj' => hclear₁.place hj (Nat.lt_of_lt_of_le hj' ?_)⟩
    exact Nat.add_le_add_left hsize p
  have hmiss : Misses p (resultValidity env h₁ rows .VARCHAR) := by
    refine ⟨env.allocator.pos .., ?_⟩
    have hapart := validityBlock_new hb
    unfold Block.Apart at hapart
    dsimp only at hapart
    omega
  -- a row of the call marks the result as valid and stores nothing else
  have hrows' : ∃ s, callAllRows env (fun _ => .ok (.str "a")) .VARCHAR resolvers h₁ rows = .ok s ∧
      ZeroAt env.num p s.heap ∧ s.heap.blocks = (resultHeap env h₁ rows .VARCHAR).blocks := by
    refine callRows_induct (P := fun _ s => ZeroAt env.num p s.heap ∧
      s.heap.blocks = (resultHeap env h₁ rows .VARCHAR).blocks) ⟨hzero, rfl⟩
      (fun n s _ hs => ?_) rows (Nat.le_refl rows)
    refine ⟨_, callRow_eq (f := fun _ => .str "a") rfl, ?_, ?_⟩
    · exact hs.1.set hmiss
    · exact View.set_blocks.trans hs.2
  obtain ⟨s, hcalls, hdone, hblocks⟩ := hrows'
  have hkept : ⟨p, rows * 8⟩ ∈ s.heap.blocks := by
    rw [hblocks]
    exact List.mem_cons_of_mem _ hb
  rw [hrun] at hcall
  split at hcall
  next => cases hcall
  next =>
    rw [hcalls] at hcall
    change Except.ok (receive env ret rows (finish env h₁ rows .VARCHAR s).1
      (finish env h₁ rows .VARCHAR s).2) = _ at hcall
    unfold finish at hcall
    rw [if_pos rfl, receive_eq storePointers_at] at hcall
    rw [← Except.ok.inj hcall, List.getElem?_map, List.getElem?_range hrows]
    intro heq
    have hrow := Option.some.inj heq
    dsimp only at hrow
    split at hrow
    next => cases hrow
    next =>
      refine receiveValue_zero hptype ?_ (Option.some.inj hrow)
      refine storePointers_zero ?_ (encodeStrings_blocks hkept) hsize
      rw [resultData_eq env h₁ rows (k := .float64) rfl]
      exact encodeStrings_zero hpos hdone hkept hsize

end Call

end Haybarn.Udf
