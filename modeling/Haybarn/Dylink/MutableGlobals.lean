import Haybarn.Dylink.WasmBinary

/-!
# The scan for mutable globals (`patch_dylink_glue.cjs`)

When a side module is loaded, its exported globals are relocated unless they are mutable.
`__hbMutableGlobals` finds out from the bytes of the module which ones are: it goes over the import
section, the global section and the export section, and returns the names, or nothing if it meets
something that it does not parse.

The scan validates nothing else. WebAssembly does, before any of the names is used.

Mirroring notes:
- `b[o++]` behind the end is `undefined`, which counts as zero in all arithmetic and is no kind, no
  instruction and not 99 or 100.
- A JavaScript number holds every integer below 2^53. Numbers of at most seven bytes are below
  that. What the scan does with a longer one where it counts, measures or refers to something, the
  model leaves open (`imprecise`). The other numbers are only passed over.
- `UTF8ArrayToString` is a parameter: the string that it makes of some bytes.
- A `Set` is the list of its elements.
- The loops for the sections and the instructions take a step for every byte at most, so they have
  that many steps as their fuel.

`mutable_globals_exact` is the result.
-/

namespace Haybarn.Dylink.Wasm

open Lib.Binary

/-- Why there is no set. -/
inductive Stop
  /-- `return` -/
  | gaveUp
  | imprecise
  deriving DecidableEq

section Model

variable (b : List UInt8)

/-- `for(var v=0,s=1,x;;s*=128)if(x=b[o++],v+=(x&127)*s,!(x&128))return v` -/
def loopL : List UInt8 → Nat → Nat → Nat → Nat × Nat
  | [], v, _, o => (v, o + 1)
  | x :: xs, v, s, o =>
    let v := v + (x &&& 127).toNat * s
    if x &&& 128 = 0 then (v, o + 1) else loopL xs v (s * 128) (o + 1)

/-- The number at `o`, and the position behind it. -/
def L (o : Nat) : Nat × Nat := loopL (b.drop o) 0 1 o

/-- A number whose value is used. -/
def number (o : Nat) : Except Stop (Nat × Nat) :=
  if (L b o).2 ≤ o + 7 then .ok (L b o) else .error .imprecise

/-- Passes over a name. -/
def S (o : Nat) : Except Stop Nat := do
  let (n, o) ← number b o
  return o + n

/-- Passes over a type. -/
def T (o : Nat) : Nat :=
  if b[o]? = some 99 ∨ b[o]? = some 100 then (L b (o + 1)).2 else o + 1

/-- Passes over limits. -/
def M (o : Nat) : Nat :=
  let f := b[o]?.getD 0
  let o := (L b (o + 1)).2
  let o := if f &&& 1 ≠ 0 then (L b o).2 else o
  if f &&& 8 ≠ 0 then (L b o).2 else o

/-- `b[o++]&1` -/
def mutability (o : Nat) : Bool := isMutable (b[o]?.getD 0)

/-- What is imported. `m` has the mutability of the globals. -/
def readDesc (o : Nat) (m : List Bool) : Except Stop (Nat × List Bool) :=
  let k := b[o]?
  if k = some 0 then .ok ((L b (o + 1)).2, m)
  else if k = some 1 then .ok (M b (T b (o + 1)), m)
  else if k = some 2 then .ok (M b (o + 1), m)
  else if k = some 3 then .ok (T b (o + 1) + 1, m ++ [mutability b (T b (o + 1))])
  else if k = some 4 then .ok ((L b (o + 2)).2, m)
  else .error .gaveUp

def readImport (o : Nat) (m : List Bool) : Except Stop (Nat × List Bool) := do
  let o ← S b o
  let o ← S b o
  readDesc b o m

/-- `for(var p;(p=b[o++])!=11;)` -/
def readInit : Nat → Nat → Except Stop Nat
  | 0, _ => .error .gaveUp
  | fuel + 1, o =>
    match b[o]? with
    | none => .error .gaveUp
    | some p =>
      if p = 11 then .ok (o + 1)
      else if p = 67 then readInit fuel (o + 1 + 4)
      else if p = 68 then readInit fuel (o + 1 + 8)
      else if isLebOp p then readInit fuel (L b (o + 1)).2
      else if isArithmeticOp p then readInit fuel (o + 1)
      else .error .gaveUp

def readGlobal (o : Nat) (m : List Bool) : Except Stop (Nat × List Bool) := do
  let o := T b o
  let m := m ++ [mutability b o]
  let o ← readInit b (b.length + 1) (o + 1)
  return (o, m)

/-- `r.add` -/
def addName (s : String) (r : List String) : List String := if s ∈ r then r else r ++ [s]

/-- `for(var c=L();c--;)` -/
def forItems {σ : Type} (read : Reader Stop σ) (o : Nat) (s : σ) : Except Stop (Nat × σ) := do
  let (c, o) ← number b o
  times read c o s

variable (utf8ArrayToString : List UInt8 → String)

def readExport (m : List Bool) (o : Nat) (r : List String) : Except Stop (Nat × List String) := do
  let a := o
  let o ← S b o
  let k := b[o]?
  let (i, o) ← number b (o + 1)
  if k = some 3 ∧ m[i]? = some true then
    let (l, p) := L b a
    return (o, addName (utf8ArrayToString ((b.drop p).take l)) r)
  else return (o, r)

/-- The sections from `o` on. -/
def scanSections : Nat → Nat → List Bool → Except Stop (List String)
  | 0, _, _ => .error .gaveUp
  | fuel + 1, o, m =>
    match b[o]? with
    | none => .ok []
    | some id => do
      let (n, o) ← number b (o + 1)
      let e := o + n
      if id = 2 then
        let (o, m) ← forItems b (readImport b) o m
        if o = e then scanSections fuel o m else throw .gaveUp
      else if id = 6 then
        let (o, m) ← forItems b (readGlobal b) o m
        if o = e then scanSections fuel o m else throw .gaveUp
      else if id = 7 then
        let (o, r) ← forItems b (readExport b utf8ArrayToString m) o []
        if o = e then return r else throw .gaveUp
      else scanSections fuel e m

/-- `__hbMutableGlobals` -/
def hbMutableGlobals : Except Stop (List String) :=
  scanSections b utf8ArrayToString (b.length + 1) 8 []

end Model

/-! ## Numbers, names, types and limits -/

section Pieces

variable {b : List UInt8} {o o' : Nat}

theorem loopL_eq (xs : List UInt8) : ∀ v s o : Nat,
    loopL xs v s o = (v + s * lebValue xs, o + lebLength xs) := by
  induction xs with
  | nil => exact fun v s o => rfl
  | cons x xs ih =>
    intro v s o
    rw [loopL, lebValue, lebLength]
    by_cases hx : x &&& 128 = 0
    · rw [if_pos hx, if_pos hx, if_pos hx, Nat.mul_comm s]
      rfl
    · rw [if_neg hx, if_neg hx, if_neg hx, ih]
      refine Prod.ext ?_ (Nat.succ_add_eq_add_succ o (lebLength xs))
      show v + (x &&& 127).toNat * s + s * 128 * lebValue xs =
        v + s * ((x &&& 127).toNat + 128 * lebValue xs)
      ring

theorem L_eq : L b o = (lebValue (b.drop o), o + lebLength (b.drop o)) := by
  rw [L, loopL_eq, Nat.zero_add, Nat.one_mul]

theorem L_complete (l : Leb) (h : At b o l.bytes) : L b o = (l.value, o + l.bytes.length) := by
  obtain ⟨hlength, hvalue⟩ := leb_complete l h
  rw [L_eq, hlength, hvalue]

theorem L_forward : o < (L b o).2 := by
  have hpos := lebLength_pos (b.drop o)
  rw [L_eq]
  show o < o + lebLength (b.drop o)
  omega

theorem L_sound (h : (L b o).2 ≤ b.length) :
    ∃ l : Leb, At b o l.bytes ∧ L b o = (l.value, o + l.bytes.length) := by
  rw [L_eq] at h ⊢
  obtain ⟨l, hat, hlength, hvalue⟩ := leb_sound h
  exact ⟨l, hat, by rw [hlength, hvalue]⟩

theorem number_complete (n : Num) (h : At b o n.bytes) :
    number b o = .ok (n.value, o + n.bytes.length) := by
  have hshort := n.short
  rw [number, L_complete n.toLeb h, if_pos (by show o + n.bytes.length ≤ o + 7; omega)]

theorem number_forward {v : Nat} (h : number b o = .ok (v, o')) : o < o' := by
  rw [number] at h
  split at h
  · have heq : L b o = (v, o') := Except.ok.inj h
    have hforward := L_forward (b := b) (o := o)
    rw [heq] at hforward
    exact hforward
  · cases h

theorem number_sound {v : Nat} (h : number b o = .ok (v, o')) (hle : o' ≤ b.length) :
    ∃ n : Num, At b o n.bytes ∧ v = n.value ∧ o' = o + n.bytes.length := by
  rw [number] at h
  split at h
  next hshort =>
    have heq : L b o = (v, o') := Except.ok.inj h
    obtain ⟨l, hat, hl⟩ := L_sound (b := b) (o := o) (by rw [heq]; exact hle)
    rw [hl] at hshort heq
    obtain ⟨rfl, rfl⟩ := Prod.mk.inj heq
    exact ⟨⟨l, by show l.bytes.length ≤ 7; omega⟩, hat, rfl, rfl⟩
  next => cases h

theorem S_complete (n : Name) (h : At b o n.encode) : S b o = .ok (o + n.encode.length) := by
  obtain ⟨hlength, -⟩ := at_append.mp h
  rw [S, number_complete n.length hlength]
  show Except.ok (o + n.length.bytes.length + n.length.value) = _
  rw [Name.encode, List.length_append, n.length_eq, Nat.add_assoc]

theorem S_forward (h : S b o = .ok o') : o ≤ o' := by
  obtain ⟨r, hn, hend⟩ := exists_of_bind h
  have hforward := number_forward hn
  obtain rfl : r.2 + r.1 = o' := Except.ok.inj hend
  omega

theorem S_sound (h : S b o = .ok o') (hle : o' ≤ b.length) :
    ∃ n : Name, At b o n.encode ∧ o' = o + n.encode.length := by
  obtain ⟨⟨v, p⟩, hn, hend⟩ := exists_of_bind h
  obtain rfl : p + v = o' := Except.ok.inj hend
  obtain ⟨n, hat, rfl, rfl⟩ := number_sound hn (by omega)
  obtain ⟨hbytes, hlength⟩ := at_take hle
  refine ⟨⟨n, _, hlength.symm⟩, at_append.mpr ⟨hat, hbytes⟩, ?_⟩
  show o + n.bytes.length + n.value = o + (n.bytes ++ _).length
  rw [List.length_append, hlength, Nat.add_assoc]

theorem T_complete (t : ValType) (h : At b o t.encode) : T b o = o + t.encode.length := by
  cases t with
  | plain t ht =>
    obtain ⟨hat, -⟩ := at_cons.mp h
    have hno : ¬ (b[o]? = some 99 ∨ b[o]? = some 100) := by
      rw [hat]
      simpa [isRef] using ht
    rw [T, if_neg hno]
    rfl
  | ref t ht heap =>
    obtain ⟨hat, hheap⟩ := at_cons.mp h
    have hyes : b[o]? = some 99 ∨ b[o]? = some 100 := by
      rw [hat]
      simpa [isRef] using ht
    rw [T, if_pos hyes, L_complete heap hheap]
    show o + 1 + heap.bytes.length = o + (heap.bytes.length + 1)
    omega

theorem T_forward : o < T b o := by
  have hforward := L_forward (b := b) (o := o + 1)
  rw [T]
  split <;> omega

theorem T_sound (h : T b o ≤ b.length) :
    ∃ t : ValType, At b o t.encode ∧ T b o = o + t.encode.length := by
  have hlt : o < b.length := Nat.lt_of_lt_of_le T_forward h
  have hat : b[o]? = some b[o] := List.getElem?_eq_getElem hlt
  rw [T] at h ⊢
  by_cases href : b[o]? = some 99 ∨ b[o]? = some 100
  · rw [if_pos href] at h ⊢
    obtain ⟨l, hl, heq⟩ := L_sound h
    refine ⟨.ref b[o] (by rw [hat] at href; simpa [isRef] using href) l, at_cons.mpr ⟨hat, hl⟩, ?_⟩
    rw [heq]
    show o + 1 + l.bytes.length = o + (l.bytes.length + 1)
    omega
  · rw [if_neg href]
    exact ⟨.plain b[o] (by rw [hat] at href; simpa [isRef] using href),
      at_cons.mpr ⟨hat, at_nil⟩, rfl⟩

/-- A number that the flags may say there is. -/
theorem skip_complete {present : Prop} [Decidable present] (l : Option Leb)
    (hl : l.isSome = decide present) (h : At b o (encodeOption l)) :
    (if present then (L b o).2 else o) = o + (encodeOption l).length := by
  cases l with
  | none =>
    have hno : ¬ present := by simpa using hl
    rw [if_neg hno]
    rfl
  | some l =>
    have hyes : present := by simpa using hl
    rw [if_pos hyes, L_complete l h]
    rfl

theorem skip_forward {present : Prop} [Decidable present] :
    o ≤ (if present then (L b o).2 else o) := by
  have hforward := L_forward (b := b) (o := o)
  split <;> omega

theorem skip_sound {present : Prop} [Decidable present]
    (h : (if present then (L b o).2 else o) ≤ b.length) :
    ∃ l : Option Leb, l.isSome = decide present ∧ At b o (encodeOption l) ∧
      (if present then (L b o).2 else o) = o + (encodeOption l).length := by
  by_cases hp : present
  · rw [if_pos hp] at h ⊢
    obtain ⟨l, hat, heq⟩ := L_sound h
    exact ⟨some l, by simp [hp], hat, by rw [heq]; rfl⟩
  · rw [if_neg hp]
    exact ⟨none, by simp [hp], at_nil, rfl⟩

theorem M_complete (l : Limits) (h : At b o l.encode) : M b o = o + l.encode.length := by
  obtain ⟨hflags, hrest⟩ := at_cons.mp h
  obtain ⟨hmin, hrest⟩ := at_append.mp hrest
  obtain ⟨hmax, hpage⟩ := at_append.mp hrest
  rw [M, hflags, Option.getD_some, L_complete l.min hmin]
  dsimp only
  rw [skip_complete l.max l.max_iff hmax, skip_complete l.pageSize l.pageSize_iff hpage,
    Limits.encode, List.length_cons, List.length_append, List.length_append]
  omega

theorem M_forward : o < M b o := by
  have hmin := L_forward (b := b) (o := o + 1)
  rw [M]
  refine Nat.lt_of_lt_of_le (Nat.lt_of_succ_lt hmin) ?_
  exact Nat.le_trans skip_forward skip_forward

theorem M_sound (h : M b o ≤ b.length) :
    ∃ l : Limits, At b o l.encode ∧ M b o = o + l.encode.length := by
  have hlt : o < b.length := Nat.lt_of_lt_of_le M_forward h
  have hat : b[o]? = some b[o] := List.getElem?_eq_getElem hlt
  rw [M, hat, Option.getD_some] at h ⊢
  obtain ⟨page, hpage, hpageAt, hpageEnd⟩ := skip_sound h
  obtain ⟨max, hmax, hmaxAt, hmaxEnd⟩ := skip_sound (Nat.le_trans skip_forward h)
  obtain ⟨min, hminAt, hmin⟩ := L_sound (Nat.le_trans skip_forward (Nat.le_trans skip_forward h))
  rw [hpageEnd]
  rw [hmaxEnd] at hpageAt ⊢
  rw [hmin] at hmaxAt hpageAt ⊢
  refine ⟨⟨b[o], min, max, page, hmax, hpage⟩, at_cons.mpr ⟨hat, at_append.mpr ⟨hminAt,
    at_append.mpr ⟨hmaxAt, hpageAt⟩⟩⟩, ?_⟩
  show o + 1 + min.bytes.length + (encodeOption max).length + (encodeOption page).length =
    o + (b[o] :: (min.bytes ++ (encodeOption max ++ encodeOption page))).length
  rw [List.length_cons, List.length_append, List.length_append]
  omega

end Pieces

/-! ## Imports, globals and exports -/

section Items

variable {b : List UInt8} {o o' : Nat} {m m' : List Bool}

theorem readDesc_complete (d : ImportDesc) (h : At b o d.encode) :
    readDesc b o m = .ok (o + d.encode.length, m ++ d.globals) := by
  cases d with
  | func type =>
    obtain ⟨hk, htype⟩ := at_cons.mp h
    show _ = Except.ok (o + (0 :: type.bytes).length, m ++ [])
    rw [readDesc, hk, if_pos rfl, L_complete type htype, List.append_nil, List.length_cons]
    exact congrArg (fun p => Except.ok (p, m)) (by omega)
  | table type limits =>
    obtain ⟨hk, hrest⟩ := at_cons.mp h
    obtain ⟨htype, hlimits⟩ := at_append.mp hrest
    show _ = Except.ok (o + (1 :: (type.encode ++ limits.encode)).length, m ++ [])
    rw [readDesc, hk, if_neg (by simp), if_pos rfl, T_complete type htype,
      M_complete limits hlimits, List.append_nil, List.length_cons, List.length_append]
    exact congrArg (fun p => Except.ok (p, m)) (by omega)
  | memory limits =>
    obtain ⟨hk, hlimits⟩ := at_cons.mp h
    show _ = Except.ok (o + (2 :: limits.encode).length, m ++ [])
    rw [readDesc, hk, if_neg (by simp), if_neg (by simp), if_pos rfl, M_complete limits hlimits,
      List.append_nil, List.length_cons]
    exact congrArg (fun p => Except.ok (p, m)) (by omega)
  | global type mutability =>
    obtain ⟨hk, hrest⟩ := at_cons.mp h
    obtain ⟨htype, hbyte⟩ := at_append.mp hrest
    obtain ⟨hbyte, -⟩ := at_cons.mp hbyte
    show _ = Except.ok (o + (3 :: (type.encode ++ [mutability])).length,
      m ++ [isMutable mutability])
    rw [readDesc, hk, if_neg (by simp), if_neg (by simp), if_neg (by simp), if_pos rfl,
      T_complete type htype, Wasm.mutability, hbyte, List.length_cons, List.length_append,
      List.length_singleton]
    exact congrArg (fun p => Except.ok (p, _)) (by omega)
  | tag kind type =>
    obtain ⟨hk, hrest⟩ := at_cons.mp h
    obtain ⟨-, htype⟩ := at_cons.mp hrest
    show _ = Except.ok (o + (4 :: kind :: type.bytes).length, m ++ [])
    rw [readDesc, hk, if_neg (by simp), if_neg (by simp), if_neg (by simp), if_neg (by simp),
      if_pos rfl, L_complete type htype, List.append_nil, List.length_cons, List.length_cons]
    exact congrArg (fun p => Except.ok (p, m)) (by omega)

/-- What is read of an import, by its kind. -/
theorem readDesc_cases (h : readDesc b o m = .ok (o', m')) :
    (b[o]? = some 0 ∧ o' = (L b (o + 1)).2 ∧ m' = m) ∨
    (b[o]? = some 1 ∧ o' = M b (T b (o + 1)) ∧ m' = m) ∨
    (b[o]? = some 2 ∧ o' = M b (o + 1) ∧ m' = m) ∨
    (b[o]? = some 3 ∧ o' = T b (o + 1) + 1 ∧ m' = m ++ [mutability b (T b (o + 1))]) ∨
    (b[o]? = some 4 ∧ o' = (L b (o + 2)).2 ∧ m' = m) := by
  have hclosed : ∀ {k : Option UInt8} {x : Nat × List Bool},
      k = b[o]? → Except.ok x = (Except.ok (o', m') : Except Stop (Nat × List Bool)) →
      b[o]? = k ∧ o' = x.1 ∧ m' = x.2 := by
    intro k x hk hx
    obtain rfl := Except.ok.inj hx
    exact ⟨hk.symm, rfl, rfl⟩
  unfold readDesc at h
  dsimp only at h
  split at h
  next hk => exact .inl (hclosed hk.symm h)
  next =>
    split at h
    next hk => exact .inr (.inl (hclosed hk.symm h))
    next =>
      split at h
      next hk => exact .inr (.inr (.inl (hclosed hk.symm h)))
      next =>
        split at h
        next hk => exact .inr (.inr (.inr (.inl (hclosed hk.symm h))))
        next =>
          split at h
          next hk => exact .inr (.inr (.inr (.inr (hclosed hk.symm h))))
          next => cases h

theorem readDesc_forward (h : readDesc b o m = .ok (o', m')) : o < o' := by
  have hT := T_forward (b := b) (o := o + 1)
  rcases readDesc_cases h with
    ⟨-, rfl, -⟩ | ⟨-, rfl, -⟩ | ⟨-, rfl, -⟩ | ⟨-, rfl, -⟩ | ⟨-, rfl, -⟩
  · exact Nat.lt_of_succ_lt L_forward
  · exact Nat.lt_trans (Nat.lt_of_succ_lt hT) M_forward
  · exact Nat.lt_of_succ_lt M_forward
  · omega
  · exact Nat.lt_of_succ_lt (Nat.lt_of_succ_lt L_forward)

theorem readDesc_sound (h : readDesc b o m = .ok (o', m')) (hle : o' ≤ b.length) :
    ∃ d : ImportDesc, At b o d.encode ∧ o' = o + d.encode.length ∧ m' = m ++ d.globals := by
  rcases readDesc_cases h with
    ⟨hk, rfl, rfl⟩ | ⟨hk, rfl, rfl⟩ | ⟨hk, rfl, rfl⟩ | ⟨hk, rfl, rfl⟩ | ⟨hk, rfl, rfl⟩
  · obtain ⟨type, hat, heq⟩ := L_sound hle
    refine ⟨.func type, at_cons.mpr ⟨hk, hat⟩, ?_, (List.append_nil _).symm⟩
    rw [heq, ImportDesc.encode, List.length_cons]
    omega
  · obtain ⟨limits, hlimits, hend⟩ := M_sound hle
    obtain ⟨type, htype, hmiddle⟩ := T_sound (Nat.le_trans (Nat.le_of_lt M_forward) hle)
    rw [hmiddle] at hlimits
    refine ⟨.table type limits, at_cons.mpr ⟨hk, at_append.mpr ⟨htype, hlimits⟩⟩, ?_,
      (List.append_nil _).symm⟩
    rw [hend, hmiddle, ImportDesc.encode, List.length_cons, List.length_append]
    omega
  · obtain ⟨limits, hlimits, hend⟩ := M_sound hle
    refine ⟨.memory limits, at_cons.mpr ⟨hk, hlimits⟩, ?_, (List.append_nil _).symm⟩
    rw [hend, ImportDesc.encode, List.length_cons]
    omega
  · obtain ⟨type, htype, hend⟩ := T_sound (b := b) (o := o + 1) (by omega)
    have hbyte : b[T b (o + 1)]? = some b[T b (o + 1)] := List.getElem?_eq_getElem (by omega)
    refine ⟨.global type b[T b (o + 1)], at_cons.mpr ⟨hk, at_append.mpr ⟨htype, ?_⟩⟩, ?_, ?_⟩
    · rw [← hend]
      exact at_cons.mpr ⟨hbyte, at_nil⟩
    · rw [ImportDesc.encode, List.length_cons, List.length_append, List.length_singleton]
      omega
    · rw [mutability, hbyte]
      rfl
  · obtain ⟨type, hat, heq⟩ := L_sound hle
    have hlt : o + 1 < b.length := Nat.lt_of_lt_of_le (Nat.lt_of_succ_lt L_forward) hle
    refine ⟨.tag b[o + 1] type, at_cons.mpr ⟨hk, at_cons.mpr
      ⟨List.getElem?_eq_getElem hlt, hat⟩⟩, ?_, (List.append_nil _).symm⟩
    rw [heq, ImportDesc.encode, List.length_cons, List.length_cons]
    omega

/-- **The scan reads imports.** -/
theorem reads_imports (b : List UInt8) :
    Reads b (readImport b) Import.encode (fun m i => m ++ i.desc.globals) where
  complete i o m h := by
    obtain ⟨hmodule, hrest⟩ := at_append.mp h
    obtain ⟨hname, hdesc⟩ := at_append.mp hrest
    rw [readImport, S_complete i.moduleName hmodule]
    show (S b _ >>= _) = _
    rw [S_complete i.name hname]
    show readDesc b _ m = _
    rw [readDesc_complete i.desc hdesc, Import.encode, List.length_append, List.length_append,
      Nat.add_assoc, Nat.add_assoc]
  sound o m o' m' h hle := by
    obtain ⟨p, hmodule, h⟩ := exists_of_bind h
    obtain ⟨q, hname, hdesc⟩ := exists_of_bind h
    obtain ⟨desc, hdescAt, rfl, rfl⟩ := readDesc_sound hdesc hle
    have hpq := S_forward hname
    obtain ⟨name, hnameAt, rfl⟩ := S_sound hname (by omega)
    obtain ⟨moduleName, hmoduleAt, rfl⟩ := S_sound hmodule (by omega)
    refine ⟨⟨moduleName, name, desc⟩, at_append.mpr ⟨hmoduleAt, at_append.mpr ⟨hnameAt, hdescAt⟩⟩,
      ?_, rfl⟩
    rw [Import.encode, List.length_append, List.length_append, Nat.add_assoc, Nat.add_assoc]
  forward o m o' m' h := by
    obtain ⟨p, hmodule, h⟩ := exists_of_bind h
    obtain ⟨q, hname, hdesc⟩ := exists_of_bind h
    have hp := S_forward hmodule
    have hq := S_forward hname
    have hend := readDesc_forward hdesc
    omega

/-! ### Globals -/

theorem isArithmeticOp_cases {p : UInt8} (h : isArithmeticOp p = true) :
    p ≠ 11 ∧ p ≠ 67 ∧ p ≠ 68 ∧ isLebOp p = false := by
  refine ⟨?_, ?_, ?_, ?_⟩
  · rintro rfl
    cases h
  · rintro rfl
    cases h
  · rintro rfl
    cases h
  · by_contra hleb
    rw [Bool.not_eq_false, isLebOp, decide_eq_true_eq] at hleb
    rcases hleb with rfl | rfl | rfl | rfl | rfl <;> cases h

theorem isLebOp_cases {p : UInt8} (h : isLebOp p = true) : p ≠ 11 ∧ p ≠ 67 ∧ p ≠ 68 := by
  refine ⟨?_, ?_, ?_⟩ <;> rintro rfl <;> cases h

/-- A constant expression of fewer instructions than the fuel. -/
theorem readInit_complete (init : List Instr) : ∀ (fuel o : Nat), init.length < fuel →
    At b o (init.flatMap Instr.encode ++ [11]) →
    readInit b fuel o = .ok (o + (init.flatMap Instr.encode).length + 1) := by
  induction init with
  | nil =>
    intro fuel o hfuel h
    obtain ⟨fuel, rfl⟩ := Nat.exists_eq_succ_of_ne_zero (Nat.ne_of_gt hfuel)
    obtain ⟨hend, -⟩ := at_cons.mp h
    rw [readInit, hend]
    exact if_pos rfl
  | cons instr init ih =>
    intro fuel o hfuel h
    obtain ⟨fuel, rfl⟩ := Nat.exists_eq_succ_of_ne_zero (Nat.ne_of_gt (Nat.zero_lt_of_lt hfuel))
    rw [List.flatMap_cons, List.append_assoc] at h
    obtain ⟨hinstr, hrest⟩ := at_append.mp h
    have hih := ih fuel (o + instr.encode.length) (by rw [List.length_cons] at hfuel; omega) hrest
    have hgoal : readInit b (fuel + 1) o = readInit b fuel (o + instr.encode.length) := by
      cases instr with
      | f32Const bytes hbytes =>
        obtain ⟨hop, -⟩ := at_cons.mp hinstr
        rw [readInit, hop]
        dsimp only
        rw [if_neg (by decide), if_pos rfl, Instr.encode, List.length_cons, hbytes]
      | f64Const bytes hbytes =>
        obtain ⟨hop, -⟩ := at_cons.mp hinstr
        rw [readInit, hop]
        dsimp only
        rw [if_neg (by decide), if_neg (by decide), if_pos rfl, Instr.encode, List.length_cons,
          hbytes]
      | number op hleb operand =>
        obtain ⟨hop, hoperand⟩ := at_cons.mp hinstr
        obtain ⟨h11, h67, h68⟩ := isLebOp_cases hleb
        rw [readInit, hop]
        dsimp only
        rw [if_neg h11, if_neg h67, if_neg h68, if_pos hleb, L_complete operand hoperand,
          Instr.encode, List.length_cons, Nat.add_comm operand.bytes.length, Nat.add_assoc]
      | arithmetic op harith =>
        obtain ⟨hop, -⟩ := at_cons.mp hinstr
        obtain ⟨h11, h67, h68, hleb⟩ := isArithmeticOp_cases harith
        rw [readInit, hop]
        dsimp only
        rw [if_neg h11, if_neg h67, if_neg h68, if_neg (by rw [hleb]; exact Bool.false_ne_true),
          if_pos harith, Instr.encode, List.length_singleton]
    rw [hgoal, hih, List.flatMap_cons, List.length_append, Nat.add_assoc, Nat.add_assoc,
      Nat.add_assoc, Nat.add_assoc]

/-- What is read of a constant expression, by its first byte. -/
theorem readInit_cases {fuel : Nat} (h : readInit b (fuel + 1) o = .ok o') :
    (b[o]? = some 11 ∧ o' = o + 1) ∨
    (b[o]? = some 67 ∧ readInit b fuel (o + 1 + 4) = .ok o') ∨
    (b[o]? = some 68 ∧ readInit b fuel (o + 1 + 8) = .ok o') ∨
    (∃ p, b[o]? = some p ∧ isLebOp p = true ∧ readInit b fuel (L b (o + 1)).2 = .ok o') ∨
    (∃ p, b[o]? = some p ∧ isArithmeticOp p = true ∧ readInit b fuel (o + 1) = .ok o') := by
  rw [readInit] at h
  split at h
  next => cases h
  next p hp =>
    split at h
    next hend => exact .inl ⟨hend ▸ hp, (Except.ok.inj h).symm⟩
    next =>
      split at h
      next hf32 => exact .inr (.inl ⟨hf32 ▸ hp, h⟩)
      next =>
        split at h
        next hf64 => exact .inr (.inr (.inl ⟨hf64 ▸ hp, h⟩))
        next =>
          split at h
          next hleb => exact .inr (.inr (.inr (.inl ⟨p, hp, hleb, h⟩)))
          next =>
            split at h
            next harith => exact .inr (.inr (.inr (.inr ⟨p, hp, harith, h⟩)))
            next => cases h

theorem readInit_forward (fuel : Nat) : ∀ o : Nat, readInit b fuel o = .ok o' → o < o' := by
  induction fuel with
  | zero =>
    intro o h
    cases h
  | succ fuel ih =>
    intro o h
    have hL := L_forward (b := b) (o := o + 1)
    rcases readInit_cases h with
      ⟨-, rfl⟩ | ⟨-, hrest⟩ | ⟨-, hrest⟩ | ⟨p, -, -, hrest⟩ | ⟨p, -, -, hrest⟩
    · exact Nat.lt_succ_self o
    · exact Nat.lt_trans (by omega) (ih _ hrest)
    · exact Nat.lt_trans (by omega) (ih _ hrest)
    · exact Nat.lt_trans (by omega) (ih _ hrest)
    · exact Nat.lt_trans (by omega) (ih _ hrest)

/-- A constant: the operator, and `n` bytes. -/
theorem at_constant {op : UInt8} {n : Nat} (hop : b[o]? = some op) (h : o + 1 + n ≤ b.length) :
    ∃ bytes : List UInt8, bytes.length = n ∧ At b o (op :: bytes) ∧
      o + 1 + n = o + (op :: bytes).length := by
  obtain ⟨hat, hlength⟩ := at_take h
  refine ⟨_, hlength, at_cons.mpr ⟨hop, hat⟩, ?_⟩
  rw [List.length_cons, hlength]
  omega

theorem readInit_sound (fuel : Nat) : ∀ o : Nat, readInit b fuel o = .ok o' → o' ≤ b.length →
    ∃ init : List Instr, At b o (init.flatMap Instr.encode ++ [11]) ∧
      o' = o + (init.flatMap Instr.encode).length + 1 := by
  induction fuel with
  | zero =>
    intro o h
    cases h
  | succ fuel ih =>
    intro o h hle
    -- one instruction, and what the induction says of the rest
    have hstep : ∀ (instr : Instr) (p : Nat), At b o instr.encode →
        p = o + instr.encode.length → readInit b fuel p = .ok o' →
        ∃ init : List Instr, At b o (init.flatMap Instr.encode ++ [11]) ∧
          o' = o + (init.flatMap Instr.encode).length + 1 := by
      intro instr p hat hp hrest
      obtain ⟨init, hinit, hend⟩ := ih p hrest hle
      rw [hp] at hinit hend
      refine ⟨instr :: init, ?_, ?_⟩
      · rw [List.flatMap_cons, List.append_assoc]
        exact at_append.mpr ⟨hat, hinit⟩
      · rw [hend, List.flatMap_cons, List.length_append, Nat.add_assoc o]
    rcases readInit_cases h with
      ⟨hop, rfl⟩ | ⟨hop, hrest⟩ | ⟨hop, hrest⟩ | ⟨p, hop, hp, hrest⟩ | ⟨p, hop, hp, hrest⟩
    · exact ⟨[], at_cons.mpr ⟨hop, at_nil⟩, rfl⟩
    · have hforward := readInit_forward fuel _ hrest
      obtain ⟨bytes, hbytes, hat, heq⟩ := at_constant (n := 4) hop (by omega)
      exact hstep (.f32Const bytes hbytes) _ hat heq hrest
    · have hforward := readInit_forward fuel _ hrest
      obtain ⟨bytes, hbytes, hat, heq⟩ := at_constant (n := 8) hop (by omega)
      exact hstep (.f64Const bytes hbytes) _ hat heq hrest
    · have hforward := readInit_forward fuel _ hrest
      obtain ⟨operand, hat, heq⟩ := L_sound (b := b) (o := o + 1) (by omega)
      refine hstep (.number p hp operand) _ (at_cons.mpr ⟨hop, hat⟩) ?_ hrest
      rw [heq, Instr.encode, List.length_cons]
      omega
    · exact hstep (.arithmetic p hp) _ (at_cons.mpr ⟨hop, at_nil⟩) rfl hrest

/-- An instruction is a byte at least. -/
theorem length_le_encode (init : List Instr) :
    init.length ≤ (init.flatMap Instr.encode).length := by
  induction init with
  | nil => exact Nat.le_refl 0
  | cons instr init ih =>
    have hpos : 0 < instr.encode.length := by cases instr <;> exact Nat.succ_pos _
    rw [List.flatMap_cons, List.length_append, List.length_cons]
    omega

/-- **The scan reads globals.** -/
theorem reads_globals (b : List UInt8) :
    Reads b (readGlobal b) Global.encode (fun m g => m ++ [isMutable g.mutability]) where
  complete g o m h := by
    obtain ⟨htype, hrest⟩ := at_append.mp h
    obtain ⟨hbyte, hinit⟩ := at_cons.mp hrest
    have hfuel : g.init.length < b.length + 1 := by
      have hlength := length_le_encode g.init
      have hle := hinit.le (by simp)
      rw [List.length_append] at hle
      omega
    have hmutable : mutability b (o + g.type.encode.length) = isMutable g.mutability := by
      rw [mutability, hbyte, Option.getD_some]
    rw [readGlobal, T_complete g.type htype, readInit_complete g.init _ _ hfuel hinit, hmutable]
    show Except.ok _ = _
    rw [Global.encode, List.length_append, List.length_cons, List.length_append,
      List.length_singleton]
    exact congrArg (fun p => Except.ok (p, _)) (by omega)
  sound o m o' m' h hle := by
    obtain ⟨p, hinit, hend⟩ := exists_of_bind h
    obtain ⟨rfl, rfl⟩ := Prod.mk.inj (Except.ok.inj hend)
    have hforward := readInit_forward _ _ hinit
    obtain ⟨init, hinitAt, hinitEnd⟩ := readInit_sound _ _ hinit hle
    obtain ⟨type, htype, hmiddle⟩ := T_sound (b := b) (o := o) (by omega)
    obtain ⟨byte, hbyte⟩ : ∃ byte, b[T b o]? = some byte :=
      ⟨_, List.getElem?_eq_getElem (by omega)⟩
    refine ⟨⟨type, byte, init⟩, ?_, ?_, ?_⟩
    · refine at_append.mpr ⟨htype, ?_⟩
      rw [← hmiddle]
      exact at_cons.mpr ⟨hbyte, hinitAt⟩
    · rw [hinitEnd, hmiddle, Global.encode, List.length_append, List.length_cons,
        List.length_append, List.length_singleton]
      dsimp only
      omega
    · rw [mutability, hbyte]
      rfl
  forward o m o' m' h := by
    obtain ⟨p, hinit, hend⟩ := exists_of_bind h
    obtain ⟨rfl, -⟩ := Prod.mk.inj (Except.ok.inj hend)
    have hforward := readInit_forward _ _ hinit
    have htype := T_forward (b := b) (o := o)
    omega

/-! ### Exports -/

variable (utf8ArrayToString : List UInt8 → String)

/-- The export is a mutable global. -/
def Export.isMutableGlobal (m : List Bool) (e : Export) : Bool :=
  e.kind = 3 ∧ m[e.index.value]? = some true

/-- What an export does to the set. -/
def addExport (m : List Bool) (r : List String) (e : Export) : List String :=
  if e.isMutableGlobal m then addName (utf8ArrayToString e.name.bytes) r else r

/-- The end of a turn for an export, once its name, kind and index are read. -/
theorem readExport_end {m : List Bool} {r : List String} (e : Export) (h : At b o e.name.encode)
    (p : Nat) :
    (if some e.kind = some 3 ∧ m[e.index.value]? = some true then
      .ok (p, addName (utf8ArrayToString ((b.drop (L b o).2).take (L b o).1)) r)
    else .ok (p, r) : Except Stop (Nat × List String)) =
      .ok (p, addExport utf8ArrayToString m r e) := by
  obtain ⟨hlength, hbytes⟩ := at_append.mp h
  have hname : (b.drop (L b o).2).take (L b o).1 = e.name.bytes := by
    rw [L_complete e.name.length.toLeb hlength]
    have htake := hbytes.take_eq
    rw [← e.name.length_eq] at htake
    exact htake
  rw [hname, addExport, Export.isMutableGlobal]
  by_cases hmutable : e.kind = 3 ∧ m[e.index.value]? = some true
  · rw [if_pos (by simpa using hmutable), if_pos (by simpa using hmutable)]
  · rw [if_neg (by simpa using hmutable), if_neg (by simpa using hmutable)]

/-- **The scan reads exports.** -/
theorem reads_exports (b : List UInt8) (m : List Bool) :
    Reads b (readExport b utf8ArrayToString m) Export.encode (addExport utf8ArrayToString m) where
  complete e o r h := by
    obtain ⟨hname, hrest⟩ := at_append.mp h
    obtain ⟨hkind, hindex⟩ := at_cons.mp hrest
    rw [readExport, S_complete e.name hname]
    show (number b _ >>= _) = _
    rw [number_complete e.index hindex]
    show (if b[o + e.name.encode.length]? = some 3 ∧ _ then _ else _) = _
    rw [hkind]
    refine (readExport_end utf8ArrayToString e hname _).trans ?_
    rw [Export.encode, List.length_append, List.length_cons]
    exact congrArg (fun p => Except.ok (p, _)) (by omega)
  sound o r o' r' h hle := by
    obtain ⟨p, hname, h⟩ := exists_of_bind h
    obtain ⟨⟨i, q⟩, hindex, h⟩ := exists_of_bind h
    have hforward := number_forward hindex
    have hq : q = o' := by
      dsimp only at h
      split at h
      · exact (Prod.mk.inj (Except.ok.inj h)).1
      · exact (Prod.mk.inj (Except.ok.inj h)).1
    rw [hq] at h hindex hforward
    obtain ⟨index, hindexAt, rfl, hend⟩ := number_sound hindex hle
    obtain ⟨name, hnameAt, rfl⟩ := S_sound hname (by omega)
    obtain ⟨kind, hkind⟩ : ∃ kind, b[o + name.encode.length]? = some kind :=
      ⟨_, List.getElem?_eq_getElem (by omega)⟩
    refine ⟨⟨name, kind, index⟩, at_append.mpr ⟨hnameAt, at_cons.mpr ⟨hkind, hindexAt⟩⟩, ?_, ?_⟩
    · rw [hend, Export.encode, List.length_append, List.length_cons]
      dsimp only
      omega
    · have hresult :=
        readExport_end utf8ArrayToString (m := m) (r := r) ⟨name, kind, index⟩ hnameAt o'
      rw [← hkind] at hresult
      exact (Prod.mk.inj (Except.ok.inj (h.symm.trans hresult))).2
  forward o r o' r' h := by
    obtain ⟨p, hname, h⟩ := exists_of_bind h
    obtain ⟨⟨i, q⟩, hindex, h⟩ := exists_of_bind h
    have hp := S_forward hname
    have hforward := number_forward hindex
    have hq : q = o' := by
      dsimp only at h
      split at h
      · exact (Prod.mk.inj (Except.ok.inj h)).1
      · exact (Prod.mk.inj (Except.ok.inj h)).1
    omega

end Items

/-! ## Sections -/

section Sections

variable {b : List UInt8} {o : Nat} {σ α : Type} {read : Reader Stop σ}
  {encode : α → List UInt8} {act : σ → α → σ}

/-- A vector: how many items there are, and the items. -/
theorem forItems_complete (h : Reads b read encode act) (v : Vec α) (s : σ)
    (hat : At b o (v.encode encode)) :
    forItems b read o s = .ok (o + (v.encode encode).length, v.items.foldl act s) := by
  obtain ⟨hcount, hitems⟩ := at_append.mp hat
  rw [forItems, number_complete v.count hcount, v.count_eq]
  refine (times_complete h v.items _ s hitems).trans ?_
  rw [Vec.encode, List.length_append, Nat.add_assoc]

theorem forItems_sound (h : Reads b read encode act) {s s' : σ} {o' : Nat}
    (hread : forItems b read o s = .ok (o', s')) (hle : o' ≤ b.length) :
    ∃ v : Vec α, At b o (v.encode encode) ∧ o' = o + (v.encode encode).length := by
  obtain ⟨⟨c, p⟩, hnumber, htimes⟩ := exists_of_bind hread
  have hforward := times_forward h c p s o' s' htimes
  obtain ⟨items, hlength, hitems, hend, -⟩ := times_sound h c p s o' s' htimes hle
  obtain ⟨count, hcount, rfl, rfl⟩ := number_sound hnumber (by omega)
  refine ⟨⟨count, items, hlength.symm⟩, at_append.mpr ⟨hcount, hitems⟩, ?_⟩
  rw [hend, Vec.encode, List.length_append, Nat.add_assoc]

variable (utf8ArrayToString : List UInt8 → String)

/-- What a frame says of the scan: the section's id, its size and where its payload stands. -/
theorem frame_parts (f : Frame) (h : At b o f.encode) :
    b[o]? = some f.id ∧
    number b (o + 1) = .ok (f.payload.length, o + 1 + f.size.bytes.length) ∧
    At b (o + 1 + f.size.bytes.length) f.payload ∧
    o + 1 + f.size.bytes.length + f.payload.length = o + f.encode.length := by
  obtain ⟨hid, hrest⟩ := at_cons.mp h
  obtain ⟨hsize, hpayload⟩ := at_append.mp hrest
  refine ⟨hid, ?_, hpayload, ?_⟩
  · rw [number_complete f.size hsize, f.size_eq]
  · rw [Frame.encode, List.length_cons, List.length_append]
    omega

/-- The payload of a section that is read to its end. -/
theorem payload_eq {f : Frame} {xs : List UInt8} (h : At b o f.encode)
    (hat : At b (o + 1 + f.size.bytes.length) xs)
    (hend : o + f.encode.length = o + 1 + f.size.bytes.length + xs.length) : f.payload = xs := by
  obtain ⟨-, -, hpayload, hlength⟩ := frame_parts f h
  rw [← hpayload.take_eq, ← hat.take_eq]
  exact congrArg (fun n => List.take n _) (by omega)

/-- A section of items: the loop reads them if the payload is a vector of them, and only then. -/
theorem forItems_frame (h : Reads b read encode act) {f : Frame} (hat : At b o f.encode) (s : σ) :
    (∀ v : Vec α, f.payload = v.encode encode →
      forItems b read (o + 1 + f.size.bytes.length) s =
        .ok (o + f.encode.length, v.items.foldl act s)) ∧
    (∀ s', forItems b read (o + 1 + f.size.bytes.length) s = .ok (o + f.encode.length, s') →
      ∃ v : Vec α, f.payload = v.encode encode) := by
  obtain ⟨-, -, hpayload, hlength⟩ := frame_parts f hat
  constructor
  · intro v hv
    rw [hv] at hpayload hlength
    rw [forItems_complete h v s hpayload, hlength]
  · intro s' hread
    have hle : o + f.encode.length ≤ b.length := hat.le (by simp [Frame.encode])
    obtain ⟨v, hv, hend⟩ := forItems_sound h hread hle
    exact ⟨v, payload_eq hat hv hend⟩

/-- What the scan does with the section at its position. -/
def scanFrame (fuel : Nat) (f : Frame) (o : Nat) (m : List Bool) : Except Stop (List String) :=
  let e := o + f.encode.length
  let items := o + 1 + f.size.bytes.length
  if f.id = 2 then
    forItems b (readImport b) items m >>= fun r =>
      if r.1 = e then scanSections b utf8ArrayToString fuel r.1 r.2 else .error .gaveUp
  else if f.id = 6 then
    forItems b (readGlobal b) items m >>= fun r =>
      if r.1 = e then scanSections b utf8ArrayToString fuel r.1 r.2 else .error .gaveUp
  else if f.id = 7 then
    forItems b (readExport b utf8ArrayToString m) items [] >>= fun r =>
      if r.1 = e then .ok r.2 else .error .gaveUp
  else scanSections b utf8ArrayToString fuel e m

theorem scanSections_frame (fuel : Nat) {f : Frame} (hat : At b o f.encode) (m : List Bool) :
    scanSections b utf8ArrayToString (fuel + 1) o m =
      scanFrame (b := b) utf8ArrayToString fuel f o m := by
  obtain ⟨hid, hsize, -, hlength⟩ := frame_parts f hat
  rw [scanSections, hid]
  dsimp only
  rw [hsize]
  unfold scanFrame
  rw [← hlength]
  rfl

/-- What the scan finds in some sections, of which it has gone over others with the globals `m`. -/
def answer (m : List Bool) : List Section → List String
  | [] => []
  | .exports items :: _ => items.items.foldl (addExport utf8ArrayToString m) []
  | s :: sections => answer (m ++ (s.imported ++ s.defined)) sections

theorem foldl_append {β : Type} (g : α → List β) (as : List α) :
    ∀ m : List β, as.foldl (fun m a => m ++ g a) m = m ++ as.flatMap g := by
  induction as with
  | nil => exact fun m => (List.append_nil m).symm
  | cons a as ih =>
    intro m
    rw [List.foldl_cons, ih, List.flatMap_cons, List.append_assoc]

/-- **The scan goes over sections** that it can read. -/
theorem scan_complete (fuel : Nat) : ∀ {frames : List Frame} {sections : List Section},
    List.Forall₂ Frame.Holds frames sections → ∀ (o : Nat) (m : List Bool),
    frames.length < fuel → At b o (frames.flatMap Frame.encode) →
    (b.length ≤ o + (frames.flatMap Frame.encode).length ∨ ∃ f ∈ frames, f.id = 7) →
    scanSections b utf8ArrayToString fuel o m = .ok (answer utf8ArrayToString m sections) := by
  induction fuel with
  | zero => exact fun _ _ _ hfuel => absurd hfuel (Nat.not_lt_zero _)
  | succ fuel ih =>
    intro frames sections hholds o m hfuel hat hend
    cases hholds with
    | nil =>
      have hle : b.length ≤ o := by simpa using hend
      rw [scanSections, List.getElem?_eq_none hle]
      rfl
    | @cons f s frames sections hf hrest =>
      rw [List.flatMap_cons] at hat hend
      obtain ⟨hframe, hframes⟩ := at_append.mp hat
      obtain ⟨hid, hpayload⟩ := hf
      have hgo : ∀ m', f.id ≠ 7 →
          scanSections b utf8ArrayToString fuel (o + f.encode.length) m' =
            .ok (answer utf8ArrayToString m' sections) := by
        intro m' hseven
        refine ih hrest _ m' (by rw [List.length_cons] at hfuel; omega) hframes ?_
        rcases hend with hend | ⟨g, hg, hid'⟩
        · refine .inl ?_
          rw [List.length_append] at hend
          omega
        · rcases List.mem_cons.mp hg with rfl | hg
          · exact absurd hid' hseven
          · exact .inr ⟨g, hg, hid'⟩
      rw [scanSections_frame utf8ArrayToString fuel hframe]
      unfold scanFrame
      dsimp only
      cases s with
      | imports items =>
        have hm : items.items.foldl (fun m i => m ++ i.desc.globals) m =
            m ++ (Section.imported (.imports items) ++ Section.defined (.imports items)) := by
          rw [foldl_append]
          exact congrArg (m ++ ·) (List.append_nil _).symm
        have htwo : f.id = 2 := hid
        have hread := (forItems_frame (reads_imports b) hframe m).1 items hpayload
        rw [if_pos htwo, hread]
        show (if o + f.encode.length = o + f.encode.length then _ else _) = _
        rw [if_pos rfl, hgo _ (by rw [htwo]; decide), hm]
        rfl
      | globals items =>
        have hm : items.items.foldl (fun m g => m ++ [isMutable g.mutability]) m =
            m ++ (Section.imported (.globals items) ++ Section.defined (.globals items)) := by
          rw [foldl_append (fun g : Global => [isMutable g.mutability])]
          exact congrArg (m ++ ·) (List.map_eq_flatMap ..).symm
        have hsix : f.id = 6 := hid
        have hread := (forItems_frame (reads_globals b) hframe m).1 items hpayload
        rw [if_neg (by rw [hsix]; decide), if_pos hsix, hread]
        show (if o + f.encode.length = o + f.encode.length then _ else _) = _
        rw [if_pos rfl, hgo _ (by rw [hsix]; decide), hm]
        rfl
      | exports items =>
        have hseven : f.id = 7 := hid
        have hread :=
          (forItems_frame (reads_exports utf8ArrayToString b m) hframe []).1 items hpayload
        rw [if_neg (by rw [hseven]; decide), if_neg (by rw [hseven]; decide), if_pos hseven, hread]
        exact if_pos rfl
      | other id hother bytes =>
        rw [isScanned, decide_eq_false_iff_not, not_or, not_or] at hother
        have hid' : f.id = id := hid
        rw [← hid'] at hother
        rw [if_neg hother.1, if_neg hother.2.1, if_neg hother.2.2, hgo _ hother.2.2, answer]
        · exact congrArg (fun m' => Except.ok (answer utf8ArrayToString m' sections))
            (List.append_nil m).symm
        · simp

/-- Sections that the scan does not look into. -/
theorem holds_of_not_scanned : ∀ {frames : List Frame}, (∀ f ∈ frames, isScanned f.id = false) →
    ∃ sections, List.Forall₂ Frame.Holds frames sections
  | [], _ => ⟨[], .nil⟩
  | f :: frames, h => by
    obtain ⟨sections, hsections⟩ :=
      holds_of_not_scanned fun g hg => h g (List.mem_cons_of_mem f hg)
    exact ⟨.other f.id (h f List.mem_cons_self) f.payload :: sections, .cons ⟨rfl, rfl⟩ hsections⟩

/-- **The sections that the scan has gone over** hold what it has read. -/
theorem scan_sound (fuel : Nat) : ∀ (frames : List Frame) (o : Nat) (m : List Bool)
    (r : List String), Ordered (frames.map Frame.id) → At b o (frames.flatMap Frame.encode) →
    scanSections b utf8ArrayToString fuel o m = .ok r →
    ∃ sections, List.Forall₂ Frame.Holds frames sections := by
  induction fuel with
  | zero =>
    intro frames o m r _ _ h
    cases h
  | succ fuel ih =>
    intro frames o m r hordered hat h
    cases frames with
    | nil => exact ⟨[], .nil⟩
    | cons f frames =>
      rw [List.flatMap_cons] at hat
      obtain ⟨hframe, hframes⟩ := at_append.mp hat
      have hrest : Ordered (frames.map Frame.id) := hordered.tail
      rw [scanSections_frame utf8ArrayToString fuel hframe] at h
      unfold scanFrame at h
      dsimp only at h
      split at h
      next hid =>
        obtain ⟨⟨e, m'⟩, hread, hgo⟩ := exists_of_bind h
        dsimp only at hgo
        split at hgo
        next hend =>
          obtain rfl := hend
          obtain ⟨v, hv⟩ := (forItems_frame (reads_imports b) hframe m).2 m' hread
          obtain ⟨sections, hsections⟩ := ih frames _ m' r hrest hframes hgo
          exact ⟨.imports v :: sections, .cons ⟨hid, hv⟩ hsections⟩
        next => cases hgo
      next hnot2 =>
        split at h
        next hid =>
          obtain ⟨⟨e, m'⟩, hread, hgo⟩ := exists_of_bind h
          dsimp only at hgo
          split at hgo
          next hend =>
            obtain rfl := hend
            obtain ⟨v, hv⟩ := (forItems_frame (reads_globals b) hframe m).2 m' hread
            obtain ⟨sections, hsections⟩ := ih frames _ m' r hrest hframes hgo
            exact ⟨.globals v :: sections, .cons ⟨hid, hv⟩ hsections⟩
          next => cases hgo
        next hnot6 =>
          split at h
          next hid =>
            obtain ⟨⟨e, r'⟩, hread, hgo⟩ := exists_of_bind h
            dsimp only at hgo
            split at hgo
            next hend =>
              obtain rfl := hend
              obtain ⟨v, hv⟩ :=
                (forItems_frame (reads_exports utf8ArrayToString b m) hframe []).2 r' hread
              have hbehind : ∀ g ∈ frames, isScanned g.id = false := by
                intro g hg
                rw [List.map_cons, hid] at hordered
                exact hordered.behind_exports g.id (List.mem_map_of_mem hg)
              obtain ⟨sections, hsections⟩ := holds_of_not_scanned hbehind
              exact ⟨.exports v :: sections, .cons ⟨hid, hv⟩ hsections⟩
            next => cases hgo
          next hnot7 =>
            obtain ⟨sections, hsections⟩ := ih frames _ m r hrest hframes h
            have hother : isScanned f.id = false := by
              rw [isScanned, decide_eq_false_iff_not, not_or, not_or]
              exact ⟨hnot2, hnot6, hnot7⟩
            exact ⟨.other f.id hother f.payload :: sections, .cons ⟨rfl, rfl⟩ hsections⟩

/-! ## The answer -/

theorem mem_addName {s t : String} {r : List String} : s ∈ addName t r ↔ s ∈ r ∨ t = s := by
  unfold addName
  split
  next h =>
    constructor
    · exact .inl
    · rintro (hs | rfl)
      · exact hs
      · exact h
  next => rw [List.mem_append, List.mem_singleton, eq_comm]

theorem mem_foldl_addExport {s : String} (m : List Bool) (es : List Export) : ∀ r : List String,
    s ∈ es.foldl (addExport utf8ArrayToString m) r ↔
      s ∈ r ∨ ∃ e ∈ es, e.isMutableGlobal m = true ∧ utf8ArrayToString e.name.bytes = s := by
  induction es with
  | nil => simp
  | cons e es ih =>
    intro r
    rw [List.foldl_cons, ih, addExport]
    by_cases he : e.isMutableGlobal m = true
    · rw [if_pos he, mem_addName]
      simp [he, or_assoc]
    · rw [if_neg he]
      simp [he]

/-- **The answer in terms of the whole index space**: in order, the globals are complete when the
exports come. -/
theorem answer_eq : ∀ (sections : List Section) (m : List Bool),
    Ordered (sections.map Section.id) →
    answer utf8ArrayToString m sections = (sections.flatMap Section.exported).foldl
      (addExport utf8ArrayToString (m ++ globalsOf sections)) []
  | [], m, _ => rfl
  | s :: sections, m, hordered => by
    have ih := answer_eq sections (m ++ (s.imported ++ s.defined)) hordered.tail
    have hlater : ∀ k, k ≤ s.id → isScanned s.id = true → isScanned k = true →
        ∀ t ∈ sections, t.id ≠ k := by
      rintro k hk hs hscanned t ht rfl
      have hlt := hordered.lt hs (List.mem_map_of_mem ht) hscanned
      exact absurd (UInt8.lt_of_lt_of_le hlt hk) (UInt8.lt_irrefl _)
    unfold globalsOf at ih ⊢
    rw [List.flatMap_cons, List.flatMap_cons, List.flatMap_cons]
    have hsame : ∀ {m' m'' : List Bool}, m' = m'' →
        (sections.flatMap Section.exported).foldl (addExport utf8ArrayToString m') [] =
          (sections.flatMap Section.exported).foldl (addExport utf8ArrayToString m'') [] :=
      fun h => by rw [h]
    cases s with
    | imports items =>
      have himported := imported_eq_nil (hlater 2 (show (2 : UInt8) ≤ 2 by decide) rfl rfl)
      rw [himported] at ih ⊢
      exact ih.trans (hsame (List.append_assoc m _ _))
    | globals items =>
      have himported := imported_eq_nil (hlater 2 (show (2 : UInt8) ≤ 6 by decide) rfl rfl)
      rw [himported] at ih ⊢
      exact ih.trans (hsame (List.append_assoc m _ _))
    | exports items =>
      have himported := imported_eq_nil (hlater 2 (show (2 : UInt8) ≤ 7 by decide) rfl rfl)
      have hdefined := defined_eq_nil (hlater 6 (show (6 : UInt8) ≤ 7 by decide) rfl rfl)
      have hexported := exported_eq_nil (hlater 7 (show (7 : UInt8) ≤ 7 by decide) rfl rfl)
      rw [himported, hdefined, hexported]
      simp [answer, Section.exported, Section.imported, Section.defined]
    | other id hother bytes => exact ih.trans (hsame (List.append_assoc m [] _))

/-- **The answer is the set of the mutable exports.** -/
theorem mem_answer {s : String} {sections : List Section}
    (hordered : Ordered (sections.map Section.id)) :
    s ∈ answer utf8ArrayToString [] sections ↔
      ∃ e ∈ mutableExports sections, utf8ArrayToString e.name.bytes = s := by
  rw [answer_eq utf8ArrayToString sections [] hordered, mem_foldl_addExport, List.nil_append]
  unfold mutableExports
  constructor
  · rintro (hs | ⟨e, he, hmutable, hname⟩)
    · cases hs
    · exact ⟨e, List.mem_filter.mpr ⟨he, hmutable⟩, hname⟩
  · rintro ⟨e, he, hname⟩
    obtain ⟨he, hmutable⟩ := List.mem_filter.mp he
    exact .inr ⟨e, he, hmutable, hname⟩

theorem length_le_frames (frames : List Frame) :
    frames.length ≤ (frames.flatMap Frame.encode).length := by
  induction frames with
  | nil => exact Nat.le_refl 0
  | cons f frames ih =>
    rw [List.flatMap_cons, List.length_append, List.length_cons, Frame.encode, List.length_cons]
    omega

end Sections

/-- **The scan is exact.** For every function that makes strings of bytes, every binary, and all
bytes that are sections: the scan of the binary returns the set of its exported globals that are
mutable; and the scan of the bytes returns no set, or such a set for what is in the sections. -/
theorem mutable_globals_exact (utf8ArrayToString : List UInt8 → String) :
    (∀ x : Binary, ∃ r, hbMutableGlobals x.encode utf8ArrayToString = .ok r ∧
      ∀ s, s ∈ r ↔ ∃ e ∈ mutableExports x.sections, utf8ArrayToString e.name.bytes = s) ∧
    (∀ x : Framed, (∃ stop, hbMutableGlobals x.encode utf8ArrayToString = .error stop) ∨
      ∃ r sections, hbMutableGlobals x.encode utf8ArrayToString = .ok r ∧
        List.Forall₂ Frame.Holds x.frames sections ∧
        ∀ s, s ∈ r ↔ ∃ e ∈ mutableExports sections, utf8ArrayToString e.name.bytes = s) := by
  have hat : ∀ (header rest : List UInt8) (frames : List Frame), header.length = 8 →
      At (header ++ (frames.flatMap Frame.encode ++ rest)) 8 (frames.flatMap Frame.encode) := by
    intro header rest frames hheader
    unfold At
    rw [← hheader, List.drop_left]
    exact List.prefix_append _ _
  constructor
  · intro x
    have hat := hat x.header [] x.frames x.header_length
    rw [List.append_nil] at hat
    have hlength := length_le_frames x.frames
    have hscan := scan_complete utf8ArrayToString (x.encode.length + 1) x.holds 8 []
      (by rw [Binary.encode, List.length_append]; omega) hat
      (.inl (by rw [List.length_append, x.header_length]))
    have hordered := x.ordered
    rw [map_id_of_holds x.holds] at hordered
    exact ⟨_, hscan, fun s => mem_answer utf8ArrayToString hordered⟩
  · intro x
    have hat := hat x.header x.rest x.frames x.header_length
    cases hscan : hbMutableGlobals x.encode utf8ArrayToString with
    | error stop => exact .inl ⟨stop, rfl⟩
    | ok r =>
      obtain ⟨sections, hholds⟩ :=
        scan_sound utf8ArrayToString (x.encode.length + 1) x.frames 8 [] r x.ordered hat hscan
      have hlength := length_le_frames x.frames
      have hend : x.encode.length ≤ 8 + (x.frames.flatMap Frame.encode).length ∨
          ∃ f ∈ x.frames, f.id = 7 := by
        rcases x.ends with hrest | hexports
        · refine .inl ?_
          rw [Framed.encode, hrest, List.append_nil, List.length_append, x.header_length]
        · exact .inr hexports
      have hcomplete := scan_complete utf8ArrayToString (x.encode.length + 1) hholds 8 []
        (by rw [Framed.encode, List.length_append, List.length_append]; omega) hat hend
      obtain rfl := Except.ok.inj (hscan.symm.trans hcomplete)
      have hordered := x.ordered
      rw [map_id_of_holds hholds] at hordered
      exact .inr ⟨_, sections, rfl, hholds, fun s => mem_answer utf8ArrayToString hordered⟩

/-! ## Sections in another order -/

/-- A number of one byte. -/
def small (x : UInt8) (h : isLeb [x] = true) : Num := ⟨⟨[x], h⟩, Nat.le_of_ble_eq_true rfl⟩

/-- The export of the global 0 under the name `g`. -/
def exportOfG : Section :=
  .exports ⟨small 1 rfl, [⟨⟨small 1 rfl, [103], rfl⟩, 3, small 0 rfl⟩], rfl⟩

/-- A mutable global. -/
def mutableG : Section :=
  .globals ⟨small 1 rfl, [⟨.plain 127 rfl, 1, [.number 65 rfl ⟨[0], rfl⟩]⟩], rfl⟩

/-- The bytes of some short sections. -/
def encodeSections (sections : List Section) : List UInt8 :=
  [0, 97, 115, 109, 1, 0, 0, 0] ++
    sections.flatMap fun s => s.id :: UInt8.ofNat s.payload.length :: s.payload

/-- The exports end the scan. Where they come in front of the globals, the mutable global is not in
the set. -/
theorem exports_before_globals :
    let sections := [exportOfG, mutableG]
    let decode : List UInt8 → String :=
      fun bytes => String.ofList (bytes.map fun x => Char.ofNat x.toNat)
    encodeSections sections =
      [0, 97, 115, 109, 1, 0, 0, 0, 7, 5, 1, 1, 103, 3, 0, 6, 6, 1, 127, 1, 65, 0, 11] ∧
    hbMutableGlobals (encodeSections sections) decode = .ok [] ∧
    (mutableExports sections).map (fun e => decode e.name.bytes) = ["g"] ∧
    ¬ ∀ (sections : List Section) (r : List String),
      hbMutableGlobals (encodeSections sections) decode = .ok r →
      ∀ s, s ∈ r ↔ ∃ e ∈ mutableExports sections, decode e.name.bytes = s := by
  intro sections decode
  have hscan : hbMutableGlobals (encodeSections sections) decode = .ok [] := by rfl
  have hmutable : (mutableExports sections).map (fun e => decode e.name.bytes) = ["g"] := by rfl
  refine ⟨by rfl, hscan, hmutable, fun h => ?_⟩
  have hg : "g" ∈ (mutableExports sections).map fun e => decode e.name.bytes := by
    rw [hmutable]
    exact List.mem_singleton_self "g"
  obtain ⟨e, he, hname⟩ := List.mem_map.mp hg
  have hnone := (h sections [] hscan "g").mpr ⟨e, he, hname⟩
  cases hnone

end Haybarn.Dylink.Wasm
