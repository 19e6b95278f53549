import Mathlib

/-!
# A heap with typed arrays

The memory of a WebAssembly module as the module and JavaScript see it: addresses, numbers
that are stored there as elements of typed arrays, blocks that an allocator hands out, and
views, which are detached when the memory grows. `Keeps` says that what is in use stays as
it is; what is done in a new block keeps the rest (`Keeps.within`). A memory is `Clear` where
nothing but zero has been left in what is not in use.

Mirroring notes:

* A byte of the memory is a fragment of the element it was stored as. An element that is read
  as it was stored is read back; of what the bytes are otherwise only zero is known.
* Addresses have no end, and so an allocation does not fail.
-/

namespace Haybarn.Lib.TypedHeap

inductive ElementType
  | uint8
  | int8
  | int32
  | uint32
  | float32
  | float64
  deriving DecidableEq

/-- `BYTES_PER_ELEMENT` -/
def ElementType.size : ElementType → Nat
  | uint8 | int8 => 1
  | int32 | uint32 | float32 => 4
  | float64 => 8

theorem ElementType.size_pos (k : ElementType) : 0 < k.size := by
  cases k <;> exact Nat.succ_pos _

/-- A byte of an element: the byte `index` of `value`. -/
structure Fragment (N : Type) where
  type : ElementType
  value : N
  index : Nat
  deriving DecidableEq

/-- The numbers, and what becomes of one that is stored as an element. -/
structure Numbers (N : Type) where
  ofNat : Nat → N
  /-- An address that is kept as a number. -/
  toNat : N → Nat
  convert : ElementType → N → N
  /-- What is read where something else has been stored. -/
  reinterpret : ElementType → List (Fragment N) → N
  toNat_ofNat : ∀ n, toNat (ofNat n) = n
  convert_float64 : ∀ x, convert .float64 x = x
  /-- Every type has the numbers that fit into seven bits. -/
  convert_small : ∀ k n, n < 128 → convert k (ofNat n) = ofNat n
  reinterpret_zero : ∀ k bytes, (∀ b ∈ bytes, b.value = ofNat 0) → reinterpret k bytes = ofNat 0

variable {N : Type}

theorem Numbers.ofNat_inj (num : Numbers N) {m n : Nat} (h : num.ofNat m = num.ofNat n) :
    m = n := by
  rw [← num.toNat_ofNat m, h, num.toNat_ofNat]

/-! ## Elements -/

/-- Store `x` as an element at `a`. -/
def store (cells : Nat → Fragment N) (k : ElementType) (a : Nat) (x : N) : Nat → Fragment N :=
  fun j => if a ≤ j ∧ j < a + k.size then ⟨k, x, j - a⟩ else cells j

/-- Store `n` elements one after another. -/
def fill (cells : Nat → Fragment N) (k : ElementType) (a : Nat) (xs : Nat → N) :
    Nat → Nat → Fragment N
  | 0 => cells
  | n + 1 => store (fill cells k a xs n) k (a + n * k.size) (xs n)

/-- The element at `a`. -/
def load [DecidableEq N] (num : Numbers N) (cells : Nat → Fragment N) (k : ElementType) (a : Nat) :
    N :=
  let bytes := (List.range k.size).map fun j => cells (a + j)
  if bytes = (List.range k.size).map fun j => ⟨k, (cells a).value, j⟩ then (cells a).value
  else num.reinterpret k bytes

/-- The `n` bytes from `a` on. -/
def loadBytes [DecidableEq N] (num : Numbers N) (cells : Nat → Fragment N) (a n : Nat) :
    List UInt8 :=
  (List.range n).map fun j => UInt8.ofNat (num.toNat (load num cells .uint8 (a + j)))

section Elements

variable {cells cells' : Nat → Fragment N} {k : ElementType} {a i j n : Nat} {x : N} {xs : Nat → N}

theorem store_out (h : j < a ∨ a + k.size ≤ j) : store cells k a x j = cells j :=
  if_neg (by omega)

/-- The last byte of element `i` of an array is before the end of the array. -/
theorem element_le (h : i < n) : i * k.size + k.size ≤ n * k.size := by
  rw [← Nat.succ_mul]
  exact Nat.mul_le_mul_right k.size h

theorem fill_out (h : j < a ∨ a + n * k.size ≤ j) : fill cells k a xs n j = cells j := by
  induction n with
  | zero => rfl
  | succ n ih =>
    rw [Nat.succ_mul] at h
    rw [fill, store_out (by omega), ih (by omega)]

variable [DecidableEq N] (num : Numbers N)

theorem load_congr (h : ∀ j, j < k.size → cells' (a + j) = cells (a + j)) :
    load num cells' k a = load num cells k a := by
  have hbytes : (List.range k.size).map (fun j => cells' (a + j)) =
      (List.range k.size).map fun j => cells (a + j) :=
    List.map_congr_left fun j hj => h j (List.mem_range.mp hj)
  have hfirst : cells' a = cells a := h 0 k.size_pos
  unfold load
  rw [hbytes, hfirst]

theorem loadBytes_congr (h : ∀ j, j < n → cells' (a + j) = cells (a + j)) :
    loadBytes num cells' a n = loadBytes num cells a n := by
  unfold loadBytes
  refine List.map_congr_left fun j hj => ?_
  rw [load_congr num]
  intro i hi
  obtain rfl : i = 0 := Nat.lt_one_iff.mp hi
  exact h j (List.mem_range.mp hj)

/-- What is stored is loaded. -/
theorem load_store : load num (store cells k a x) k a = x := by
  have hbyte : ∀ j, j < k.size → store cells k a x (a + j) = ⟨k, x, j⟩ := by
    intro j hj
    rw [store, if_pos (by omega), Nat.add_sub_cancel_left]
  have hfirst : (store cells k a x a).value = x := congrArg Fragment.value (hbyte 0 k.size_pos)
  unfold load
  dsimp only
  rw [hfirst, if_pos]
  exact List.map_congr_left fun j hj => hbyte j (List.mem_range.mp hj)

/-- An element that is stored elsewhere is not seen. -/
theorem load_store_out {k' : ElementType} {a' : Nat} (h : a + k.size ≤ a' ∨ a' + k'.size ≤ a) :
    load num (store cells k' a' x) k a = load num cells k a :=
  load_congr num fun j hj => store_out (by omega)

theorem load_fill (h : i < n) : load num (fill cells k a xs n) k (a + i * k.size) = xs i := by
  induction n with
  | zero => exact absurd h (Nat.not_lt_zero i)
  | succ n ih =>
    rcases Nat.lt_succ_iff_lt_or_eq.mp h with hlt | rfl
    · have hend := element_le (k := k) hlt
      rw [fill, load_store_out num (by omega), ih hlt]
    · exact load_store num

/-- Where nothing but zero is, zero is loaded. -/
theorem load_zero (h : ∀ j, j < k.size → (cells (a + j)).value = num.ofNat 0) :
    load num cells k a = num.ofNat 0 := by
  unfold load
  dsimp only
  split
  next => exact h 0 k.size_pos
  next =>
    refine num.reinterpret_zero _ _ fun b hb => ?_
    obtain ⟨j, hj, rfl⟩ := List.mem_map.mp hb
    exact h j (List.mem_range.mp hj)

end Elements

/-! ## Blocks -/

/-- A piece of the memory that has been handed out. -/
structure Block where
  ptr : Nat
  size : Nat

structure Heap (N : Type) where
  cells : Nat → Fragment N
  /-- The blocks that are in use. -/
  blocks : List Block
  /-- How often the memory has grown. -/
  grown : Nat

/-- Nothing of the block is in the `n` bytes from `p` on. -/
def Block.Apart (b : Block) (p n : Nat) : Prop := b.ptr + b.size ≤ p ∨ p + n ≤ b.ptr

/-- The `n` bytes from `p` on are in the block. -/
def Block.Spans (b : Block) (p n : Nat) : Prop := b.ptr ≤ p ∧ p + n ≤ b.ptr + b.size

/-- Where a new block of a size goes, given the blocks in use. -/
structure Allocator where
  place : List Block → Nat → Nat
  pos : ∀ bs n, 0 < place bs n
  apart : ∀ bs n, ∀ b : Block, b ∈ bs → b.Apart (place bs n) n

namespace Heap

variable (A : Allocator) (h h' : Heap N)

/-- `malloc`; the memory may have to grow for it. -/
def malloc (grows : Bool) (n : Nat) : Heap N :=
  { h with
    blocks := ⟨A.place h.blocks n, n⟩ :: h.blocks
    grown := if grows then h.grown + 1 else h.grown }

/-- A new array with these elements. The memory grows unseen where no view is in use. -/
def newArray (k : ElementType) (xs : Nat → N) (n : Nat) : Heap N :=
  let allocated := h.malloc A false (n * k.size)
  { allocated with cells := fill h.cells k (A.place h.blocks (n * k.size)) xs n }

/-- What is in use in `h` is in use in `h'`, and as it was. -/
structure Keeps : Prop where
  blocks : h.blocks ⊆ h'.blocks
  cells : ∀ b ∈ h.blocks, ∀ j, b.ptr ≤ j → j < b.ptr + b.size → h'.cells j = h.cells j

/-- Nothing is at the null pointer, and what is not in use is zero. -/
structure Clear (num : Numbers N) : Prop where
  nonnull : ∀ b ∈ h.blocks, 0 < b.ptr
  unused : ∀ j, (∀ b ∈ h.blocks, b.Apart j 1) → (h.cells j).value = num.ofNat 0

/-- The memory with nothing left in what is not in use. -/
def cleared (num : Numbers N) : Heap N :=
  { h with cells := fun j =>
      if h.blocks.any fun b => b.ptr ≤ j && j < b.ptr + b.size then h.cells j
      else ⟨.uint8, num.ofNat 0, 0⟩ }

variable {A h h'} {h'' : Heap N} {grows : Bool} {n p a : Nat} {k : ElementType} {xs : Nat → N}
  {b : Block}

theorem Keeps.refl (h : Heap N) : h.Keeps h := ⟨fun _ hb => hb, fun _ _ _ _ _ => rfl⟩

theorem Keeps.trans (hk : h.Keeps h') (hk' : h'.Keeps h'') : h.Keeps h'' := by
  refine ⟨fun b hb => hk'.blocks (hk.blocks hb), fun b hb j hj hj' => ?_⟩
  exact (hk'.cells b (hk.blocks hb) j hj hj').trans (hk.cells b hb j hj hj')

theorem keeps_malloc : h.Keeps (h.malloc A grows n) :=
  ⟨fun _ hb => List.mem_cons_of_mem _ hb, fun _ _ _ _ _ => rfl⟩

/-- What is done inside a block that is apart keeps the rest. -/
theorem Keeps.within (hk : h.Keeps h') {cells : Nat → Fragment N}
    (hapart : ∀ b : Block, b ∈ h.blocks → b.Apart p n)
    (hout : ∀ j, j < p ∨ p + n ≤ j → cells j = h'.cells j) :
    h.Keeps { h' with cells := cells } := by
  refine ⟨hk.blocks, fun b hb j hj hj' => ?_⟩
  have hb' := hapart b hb
  unfold Block.Apart at hb'
  exact (hout j (by omega)).trans (hk.cells b hb j hj hj')

theorem newArray_keeps : h.Keeps (h.newArray A k xs n) := by
  have hallocated : h.Keeps (h.malloc A false (n * k.size)) := keeps_malloc
  exact hallocated.within (A.apart h.blocks _) fun _ hj => fill_out hj

section Loads

variable [DecidableEq N] (num : Numbers N)

theorem Keeps.load (hk : h.Keeps h') (hb : b ∈ h.blocks) (hspans : b.Spans a k.size) :
    TypedHeap.load num h'.cells k a = TypedHeap.load num h.cells k a := by
  unfold Block.Spans at hspans
  exact load_congr num fun j hj => hk.cells b hb _ (by omega) (by omega)

theorem Keeps.loadBytes (hk : h.Keeps h') (hb : b ∈ h.blocks) (hspans : b.Spans a n) :
    TypedHeap.loadBytes num h'.cells a n = TypedHeap.loadBytes num h.cells a n := by
  unfold Block.Spans at hspans
  exact loadBytes_congr num fun j hj => hk.cells b hb _ (by omega) (by omega)

/-- The elements of a new array stay where they are as long as it is in use. -/
theorem newArray_load (hk : (h.newArray A k xs n).Keeps h') {i : Nat} (hi : i < n) :
    TypedHeap.load num h'.cells k (A.place h.blocks (n * k.size) + i * k.size) = xs i := by
  have hend := element_le (k := k) hi
  rw [hk.load num (b := ⟨A.place h.blocks (n * k.size), n * k.size⟩) (List.mem_cons_self ..)]
  · exact load_fill num hi
  · exact ⟨Nat.le_add_right .., by dsimp only; omega⟩

end Loads

theorem cleared_keeps {num : Numbers N} : h.Keeps (h.cleared num) := by
  refine ⟨fun _ hb => hb, fun b hb j hj hj' => if_pos ?_⟩
  refine List.any_eq_true.mpr ⟨b, hb, ?_⟩
  rw [decide_eq_true hj, decide_eq_true hj']
  rfl

theorem cleared_clear {num : Numbers N} (hnonnull : ∀ b ∈ h.blocks, 0 < b.ptr) :
    (h.cleared num).Clear num := by
  refine ⟨hnonnull, fun j hj => ?_⟩
  unfold cleared
  dsimp only
  rw [if_neg]
  intro hany
  obtain ⟨b, hb, hin⟩ := List.any_eq_true.mp hany
  have hapart := hj b hb
  rw [Bool.and_eq_true, decide_eq_true_eq, decide_eq_true_eq] at hin
  unfold Block.Apart at hapart
  omega

theorem Clear.malloc {num : Numbers N} (hclear : h.Clear num) :
    (h.malloc A grows n).Clear num := by
  refine ⟨fun b hb => ?_, fun j hj => hclear.unused j fun b hb => ?_⟩
  · rcases List.mem_cons.mp hb with rfl | hb
    · exact A.pos ..
    · exact hclear.nonnull b hb
  · exact hj b (List.mem_cons_of_mem _ hb)

theorem Clear.newArray {num : Numbers N} (hclear : h.Clear num) :
    (h.newArray A k xs n).Clear num := by
  have hallocated : (h.malloc A false (n * k.size)).Clear num := hclear.malloc
  refine ⟨hallocated.nonnull, fun j hj => ?_⟩
  have hfirst := hj ⟨A.place h.blocks (n * k.size), n * k.size⟩ (List.mem_cons_self ..)
  unfold Block.Apart at hfirst
  dsimp only at hfirst
  have hout : (h.newArray A k xs n).cells j = h.cells j := fill_out (by omega)
  rw [hout]
  exact hclear.unused j fun b hb => hj b (List.mem_cons_of_mem _ hb)

/-- A new block is zero where nothing has been left. -/
theorem Clear.place {num : Numbers N} (hclear : h.Clear num) {j : Nat}
    (hj : A.place h.blocks n ≤ j) (hj' : j < A.place h.blocks n + n) :
    (h.cells j).value = num.ofNat 0 := by
  refine hclear.unused j fun b hb => ?_
  have hb' := A.apart h.blocks n b hb
  unfold Block.Apart at hb' ⊢
  omega

/-- Nothing but zero is at the null pointer. -/
theorem Clear.null {num : Numbers N} (hclear : h.Clear num) : (h.cells 0).value = num.ofNat 0 := by
  refine hclear.unused 0 fun b hb => ?_
  have hpos := hclear.nonnull b hb
  unfold Block.Apart
  omega

end Heap

/-! ## Views -/

/-- A typed array over the memory. -/
structure View where
  /-- How often the memory had grown: what it is a view of is gone when it grows again. -/
  grown : Nat
  type : ElementType
  ptr : Nat
  length : Nat

namespace View

variable (h : Heap N) (v : View)

/-- A detached array has no elements. -/
def size : Nat := if v.grown = h.grown then v.length else 0

def get [DecidableEq N] (num : Numbers N) (i : Nat) : Option N :=
  if i < v.size h then some (load num h.cells v.type (v.ptr + i * v.type.size)) else none

def set (num : Numbers N) (i : Nat) (x : N) : Heap N :=
  if i < v.size h then
    { h with cells := store h.cells v.type (v.ptr + i * v.type.size) (num.convert v.type x) }
  else h

/-- Set the elements from `i` on. -/
def setAll (v : View) (num : Numbers N) : Heap N → Nat → List N → Heap N
  | h, _, [] => h
  | h, i, x :: xs => setAll v num (v.set h num i x) (i + 1) xs

variable {h v} {h₀ : Heap N} {num : Numbers N} {i j : Nat} {x : N}

@[simp] theorem set_grown : (v.set h num i x).grown = h.grown := by
  unfold set
  split <;> rfl

@[simp] theorem set_blocks : (v.set h num i x).blocks = h.blocks := by
  unfold set
  split <;> rfl

theorem size_le : v.size h ≤ v.length := by
  unfold size
  split <;> omega

/-- What is outside of the array stays. -/
theorem set_out (hj : j < v.ptr ∨ v.ptr + v.length * v.type.size ≤ j) :
    (v.set h num i x).cells j = h.cells j := by
  unfold set
  split
  next hi =>
    have hend := element_le (k := v.type) (Nat.lt_of_lt_of_le hi size_le)
    exact store_out (by omega)
  next => rfl

theorem keeps_set (hk : h₀.Keeps h)
    (hapart : ∀ b ∈ h₀.blocks, b.Apart v.ptr (v.length * v.type.size)) :
    h₀.Keeps (v.set h num i x) := by
  have hset : h₀.Keeps { h with cells := (v.set h num i x).cells } :=
    hk.within hapart fun j hj => set_out hj
  exact ⟨by rw [set_blocks]; exact hk.blocks, hset.cells⟩

@[simp] theorem setAll_blocks (xs : List N) : (v.setAll num h i xs).blocks = h.blocks := by
  induction xs generalizing h i with
  | nil => rfl
  | cons x xs ih =>
    unfold setAll
    rw [ih, set_blocks]

theorem keeps_setAll (hapart : ∀ b ∈ h₀.blocks, b.Apart v.ptr (v.length * v.type.size)) :
    ∀ {h : Heap N} {i : Nat} (xs : List N), h₀.Keeps h → h₀.Keeps (v.setAll num h i xs) := by
  intro h i xs hk
  induction xs generalizing h i with
  | nil => exact hk
  | cons x xs ih => exact ih (keeps_set hk hapart)

section Loads

variable [DecidableEq N]

/-- An element that is set is read back as its type holds it. -/
theorem load_set (hi : i < v.size h) :
    load num (v.set h num i x).cells v.type (v.ptr + i * v.type.size) =
      num.convert v.type x := by
  unfold set
  rw [if_pos hi]
  exact load_store num

/-- The other elements stay. -/
theorem load_set_ne (hij : j ≠ i) :
    load num (v.set h num i x).cells v.type (v.ptr + j * v.type.size) =
      load num h.cells v.type (v.ptr + j * v.type.size) := by
  unfold set
  split
  · rw [load_store_out num]
    rcases Nat.lt_or_gt_of_ne hij with hlt | hgt
    · have hend := element_le (k := v.type) hlt
      omega
    · have hend := element_le (k := v.type) hgt
      omega
  · rfl

/-- An element that is nowhere in the array stays. -/
theorem load_set_out {k : ElementType} {a : Nat}
    (ha : a + k.size ≤ v.ptr ∨ v.ptr + v.length * v.type.size ≤ a) :
    load num (v.set h num i x).cells k a = load num h.cells k a :=
  load_congr num fun j hj => set_out (by omega)

theorem load_setAll_lt (hj : j < i) (xs : List N) :
    load num (v.setAll num h i xs).cells v.type (v.ptr + j * v.type.size) =
      load num h.cells v.type (v.ptr + j * v.type.size) := by
  induction xs generalizing h i with
  | nil => rfl
  | cons x xs ih =>
    unfold setAll
    rw [ih (by omega), load_set_ne (by omega)]

/-- The elements that are set are read back. -/
theorem load_setAll {xs : List N} (hsize : i + xs.length ≤ v.size h) (hj : j < xs.length) :
    load num (v.setAll num h i xs).cells v.type (v.ptr + (i + j) * v.type.size) =
      num.convert v.type xs[j] := by
  induction xs generalizing h i j with
  | nil => exact absurd hj (Nat.not_lt_zero j)
  | cons x xs ih =>
    rw [List.length_cons] at hsize hj
    unfold setAll
    cases j with
    | zero =>
      show load num _ v.type (v.ptr + i * v.type.size) = num.convert v.type x
      rw [load_setAll_lt (Nat.lt_succ_self i), load_set (by omega)]
    | succ j =>
      have hsize' : i + 1 + xs.length ≤ v.size (v.set h num i x) := by
        unfold size at hsize ⊢
        rw [set_grown]
        omega
      rw [show i + (j + 1) = i + 1 + j by omega, ih hsize' (by omega)]
      rfl

/-- The first `n` elements have been set to these numbers. -/
def Filled (v : View) (num : Numbers N) (h : Heap N) (xs : Nat → N) (n : Nat) : Prop :=
  ∀ i, i < n → load num h.cells v.type (v.ptr + i * v.type.size) = num.convert v.type (xs i)

/-- The arrays have no byte in common. -/
def Apart (v w : View) : Prop :=
  v.ptr + v.length * v.type.size ≤ w.ptr ∨ w.ptr + w.length * w.type.size ≤ v.ptr

theorem Filled.set {xs : Nat → N} {n : Nat} (hfilled : v.Filled num h xs n) (hn : n < v.size h) :
    v.Filled num (v.set h num n (xs n)) xs (n + 1) := by
  intro i hi
  rcases Nat.lt_succ_iff_lt_or_eq.mp hi with hlt | rfl
  · rw [load_set_ne (Nat.ne_of_lt hlt)]
    exact hfilled i hlt
  · exact load_set hn

theorem Filled.set_apart {w : View} {xs : Nat → N} {n : Nat} (hfilled : v.Filled num h xs n)
    (hapart : v.Apart w) (hn : n ≤ v.length) : v.Filled num (w.set h num i x) xs n := by
  intro j hj
  have hend := element_le (k := v.type) (Nat.lt_of_lt_of_le hj hn)
  unfold Apart at hapart
  rw [load_set_out (by omega)]
  exact hfilled j hj

/-- The elements of an array stay as long as its block is kept. -/
theorem Filled.keeps {h' : Heap N} {xs : Nat → N} {n : Nat} (hfilled : v.Filled num h xs n)
    (hk : h.Keeps h') (hb : ⟨v.ptr, v.length * v.type.size⟩ ∈ h.blocks) (hn : n ≤ v.length) :
    v.Filled num h' xs n := by
  intro j hj
  have hend := element_le (k := v.type) (Nat.lt_of_lt_of_le hj hn)
  rw [hk.load num hb ⟨Nat.le_add_right .., by dsimp only; omega⟩]
  exact hfilled j hj

end Loads

end View

end Haybarn.Lib.TypedHeap
