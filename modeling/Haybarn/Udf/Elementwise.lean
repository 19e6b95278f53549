import Mathlib
import Haybarn.Udf.StringResults

/-!
# When calls map element-wise

Whether a chunk of arguments and a result type are mapped row by row, whatever the function.
The results of a numeric type are (`call_numeric`), of the values that are seen of the
arguments: those are the values themselves as long as the first block of the result does not
make the memory grow, and no string starts with a byte order mark, which `TextDecoder` drops.
Strings are not, for they are looked for at the wrong addresses (`call_varchar`), and neither is
any other result type (`call_error`).
-/

namespace Haybarn.Udf

open Haybarn.Lib Haybarn.Lib.TypedHeap

variable {N : Type} [DecidableEq N] {env : Env N}

variable (env) in
/-- The arguments of a row. -/
def DataChunk.args (chunk : DataChunk N) (row : Nat) : List (JsVal N) :=
  chunk.columns.map fun vec => vec.valueAt env.num TextDecoder.text chunk.heap row

variable (env) in
/-- Whatever the function and whatever else is in the memory: each row of the result is what the
function returns of the arguments in that row. -/
def MapsElementwise (chunk : DataChunk N) (ret : ReturnType) : Prop :=
  ∀ (f : List (JsVal N) → JsVal N) (runtime : Nat → Option (UDFFunction N)) (funcId : Nat)
    (h : Heap N), runtime funcId = some (fun args => .ok (f args)) → chunk.heap.Keeps h →
      CallScalarUDFFunction env runtime funcId h chunk.rows chunk.columns ret =
        .ok ((List.range chunk.rows).map fun row => ret.expected env (f (chunk.args env row)))

variable {chunk : DataChunk N} {ret : ReturnType}

/-- The result types that DuckDB reads as they are written. -/
theorem numeric_iff {ptype : PhysicalType} :
    ptype ∈ [.UINT8, .INT8, .INT32, .FLOAT, .DOUBLE] ↔
      ptype ≠ .VARCHAR ∧ elementType ptype ≠ none := by
  cases ptype <;> simp [elementType]

theorem expected_number {k : ElementType} (hptype : ret.physicalType ≠ .VARCHAR)
    (hk : elementType ret.physicalType = some k) (x : N) :
    ret.expected env (.number x) = some (.number (env.num.convert k x)) := by
  unfold ReturnType.expected
  rw [if_neg hptype, hk, env.toNumber_number]
  rfl

/-- A function that tells one list of arguments from all others. -/
noncomputable def distinguish (num : Numbers N) (args args' : List (JsVal N)) : JsVal N :=
  open Classical in .number (num.ofNat (if args' = args then 1 else 0))

/-- The values that `distinguish` returns are different as numbers of any type. -/
theorem distinguish_inj {args args' : List (JsVal N)} {k : ElementType}
    (hptype : ret.physicalType ≠ .VARCHAR) (hk : elementType ret.physicalType = some k)
    (heq : ret.expected env (distinguish env.num args args') =
      ret.expected env (distinguish env.num args args)) : args' = args := by
  by_contra hne
  unfold distinguish at heq
  rw [if_neg hne, if_pos rfl, expected_number hptype hk, expected_number hptype hk] at heq
  have hnumber := Value.number.inj (Option.some.inj heq)
  rw [env.num.convert_small k 0 (by omega), env.num.convert_small k 1 (by omega)] at hnumber
  exact Nat.zero_ne_one (env.num.ofNat_inj hnumber)

/-- A call of any function where the chunk is. -/
theorem MapsElementwise.call (hmaps : MapsElementwise env chunk ret)
    (f : List (JsVal N) → JsVal N) :
    CallScalarUDFFunction env (fun _ => some fun args => .ok (f args)) 0 chunk.heap chunk.rows
      chunk.columns ret =
        .ok ((List.range chunk.rows).map fun row => ret.expected env (f (chunk.args env row))) :=
  hmaps f _ 0 chunk.heap rfl (.refl _)

/-- **Strings are not mapped.** -/
theorem not_mapsElementwise_varchar (hptype : ret.physicalType = .VARCHAR)
    (hrows : 0 < chunk.rows) : ¬MapsElementwise env chunk ret := by
  intro hmaps
  have huse : ∀ vec ∈ chunk.columns, vec.InUse (chunk.heap.cleared env.num).blocks chunk.rows :=
    chunk.inUse
  have hcall := hmaps (fun _ => .str "a") (fun _ => some fun _ => .ok (.str "a")) 0
    (chunk.heap.cleared env.num) rfl Heap.cleared_keeps
  refine call_varchar huse (Heap.cleared_clear chunk.nonnull) hptype hrows rfl hcall ?_
  rw [List.getElem?_map, List.getElem?_range hrows]
  show some (ret.expected env (.str "a")) = _
  unfold ReturnType.expected
  rw [if_pos hptype, env.toText_str]
  rfl

/-- What the function sees is what is in the chunk, wherever numbers are mapped. -/
theorem seen_of_maps (hmaps : MapsElementwise env chunk ret) {k : ElementType}
    (hptype : ret.physicalType ≠ .VARCHAR) (hk : elementType ret.physicalType = some k)
    (hrows : 0 < chunk.rows) (hfixed : env.grows 1 = false) {row : Nat} (hrow : row < chunk.rows) :
    (chunk.columns.map fun vec => vec.seen env (env.grows 0) chunk.heap row) =
      chunk.args env row := by
  have hcall := hmaps.call (distinguish env.num (chunk.args env row))
  rw [call_numeric chunk.inUse hk hptype hrows hfixed rfl] at hcall
  have hsame := List.map_inj_left.mp (Except.ok.inj hcall) row (List.mem_range.mpr hrow)
  exact distinguish_inj hptype hk hsame

/-- Whole numbers. -/
private def integers : Numbers Int where
  ofNat := Int.ofNat
  toNat := Int.toNat
  convert
    | .uint8, x => x % 256
    | .int8, x => x.bmod 256
    | .int32, x => x.bmod 4294967296
    | .uint32, x => x % 4294967296
    | .float32, x | .float64, x => x
  reinterpret _ _ := 0
  toNat_ofNat _ := rfl
  convert_float64 _ := rfl
  convert_small := by
    intro k n hn
    cases k <;> simp [Int.bmod] <;> omega
  reinterpret_zero _ _ _ := rfl

/-- Every block is put behind all others. -/
private def behind : Allocator where
  place bs _ := bs.foldr (fun b n => max (b.ptr + b.size) n) 8
  pos := by
    intro bs n
    induction bs with
    | nil => exact Nat.succ_pos 7
    | cons b bs ih => exact Nat.lt_of_lt_of_le ih (Nat.le_max_right ..)
  apart := by
    intro bs n b hb
    left
    induction bs with
    | nil => cases hb
    | cons b' bs ih =>
      rcases List.mem_cons.mp hb with rfl | hb
      · exact Nat.le_max_left ..
      · exact Nat.le_trans (ih hb) (Nat.le_max_right ..)

/-- Nothing makes the memory grow. -/
private def steady : Env Int where
  num := integers
  toNumber
    | .number x => x
    | .bool true => 1
    | _ => 0
  toText
    | .str s => s
    | .number x => toString x
    | .bool b => toString b
    | .null => "null"
    | .undefined => "undefined"
    | .object _ => "[object Object]"
  truthy
    | .str s => s != ""
    | .number x => x != 0
    | .bool b => b
    | .object _ => true
    | _ => false
  allocator := behind
  grows _ := false
  toNumber_number _ := rfl
  toText_str _ := rfl

/-- One row without arguments. -/
private def oneRow : DataChunk Int where
  heap := ⟨fun _ => ⟨.uint8, 0, 0⟩, [], 0⟩
  rows := 1
  columns := []
  inUse := fun _ hc => absurd hc List.not_mem_nil
  nonnull := fun _ hb => absurd hb List.not_mem_nil

private def varchar : ReturnType := ⟨.VARCHAR, true, fun _ => rfl⟩

/-- `() => 'a'` gives DuckDB the byte at the null pointer. -/
example : CallScalarUDFFunction steady (fun _ => some fun _ => .ok (.str "a")) 0 oneRow.heap 1 []
    varchar = .ok [some (.text [0])] := by
  rfl

end Haybarn.Udf
