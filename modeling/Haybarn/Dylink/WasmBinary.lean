import Haybarn.Lib.Binary

/-!
# The sections of a WebAssembly binary

What a binary says of its imports, globals and exports, and how it is written: the encodings that
the scan for mutable globals handles. The other sections are bytes.

An encoded item holds its numbers as they are written (`Leb`), so that every way of writing one is
covered. A number that counts, measures or refers to something has at most seven bytes (`Num`); in
a valid module it has at most five.

`mutableExports` says what the scan is for. It is about any sections, whatever their order; those of
a `Binary` are in the order of the specification.
-/

namespace Haybarn.Dylink.Wasm

open Lib.Binary

structure Num extends Leb where
  short : bytes.length ≤ 7

structure Name where
  length : Num
  bytes : List UInt8
  length_eq : length.value = bytes.length

def Name.encode (n : Name) : List UInt8 := n.length.bytes ++ n.bytes

/-- A vector: the number of its items, and the items. -/
structure Vec (α : Type) where
  count : Num
  items : List α
  count_eq : count.value = items.length

def Vec.encode {α : Type} (encodeItem : α → List UInt8) (v : Vec α) : List UInt8 :=
  v.count.bytes ++ v.items.flatMap encodeItem

/-! ## Types -/

/-- The bytes that introduce a reference type with its heap type. -/
def isRef (t : UInt8) : Bool := t = 99 ∨ t = 100

inductive ValType
  | plain (t : UInt8) (h : isRef t = false)
  | ref (t : UInt8) (h : isRef t = true) (heap : Leb)

def ValType.encode : ValType → List UInt8
  | .plain t _ => [t]
  | .ref t _ heap => t :: heap.bytes

/-- The limits of a table or a memory. The flags say which of the numbers there are. -/
structure Limits where
  flags : UInt8
  min : Leb
  max : Option Leb
  pageSize : Option Leb
  max_iff : max.isSome = decide (flags &&& 1 ≠ 0)
  pageSize_iff : pageSize.isSome = decide (flags &&& 8 ≠ 0)

/-- A number that may be left out. -/
def encodeOption (l : Option Leb) : List UInt8 := (l.map Leb.bytes).getD []

def Limits.encode (l : Limits) : List UInt8 :=
  l.flags :: (l.min.bytes ++ (encodeOption l.max ++ encodeOption l.pageSize))

/-! ## Imports, globals and exports -/

inductive ImportDesc
  | func (type : Leb)
  | table (type : ValType) (limits : Limits)
  | memory (limits : Limits)
  | global (type : ValType) (mutability : UInt8)
  | tag (kind : UInt8) (type : Leb)

def ImportDesc.encode : ImportDesc → List UInt8
  | .func type => 0 :: type.bytes
  | .table type limits => 1 :: (type.encode ++ limits.encode)
  | .memory limits => 2 :: limits.encode
  | .global type mutability => 3 :: (type.encode ++ [mutability])
  | .tag kind type => 4 :: kind :: type.bytes

structure Import where
  moduleName : Name
  name : Name
  desc : ImportDesc

def Import.encode (i : Import) : List UInt8 :=
  i.moduleName.encode ++ (i.name.encode ++ i.desc.encode)

/-- The lowest bit of the byte. -/
def isMutable (mutability : UInt8) : Bool := mutability &&& 1 ≠ 0

/-- The globals that an import adds to the index space, with their mutability. -/
def ImportDesc.globals : ImportDesc → List Bool
  | .global _ mutability => [isMutable mutability]
  | _ => []

def isLebOp (p : UInt8) : Bool := p = 65 ∨ p = 66 ∨ p = 35 ∨ p = 208 ∨ p = 210

def isArithmeticOp (p : UInt8) : Bool := 106 ≤ p ∧ p ≤ 108 ∨ 124 ≤ p ∧ p ≤ 126

/-- The instructions of a constant expression. -/
inductive Instr
  | f32Const (bytes : List UInt8) (h : bytes.length = 4)
  | f64Const (bytes : List UInt8) (h : bytes.length = 8)
  /-- `i32.const`, `i64.const`, `global.get`, `ref.null` and `ref.func` -/
  | number (op : UInt8) (h : isLebOp op = true) (operand : Leb)
  /-- The additions, subtractions and multiplications of integers. -/
  | arithmetic (op : UInt8) (h : isArithmeticOp op = true)

def Instr.encode : Instr → List UInt8
  | .f32Const bytes _ => 67 :: bytes
  | .f64Const bytes _ => 68 :: bytes
  | .number op _ operand => op :: operand.bytes
  | .arithmetic op _ => [op]

structure Global where
  type : ValType
  mutability : UInt8
  init : List Instr

def Global.encode (g : Global) : List UInt8 :=
  g.type.encode ++ (g.mutability :: (g.init.flatMap Instr.encode ++ [11]))

structure Export where
  name : Name
  kind : UInt8
  index : Num

def Export.encode (e : Export) : List UInt8 := e.name.encode ++ (e.kind :: e.index.bytes)

/-! ## Sections -/

/-- The sections that the scan looks into. -/
def isScanned (id : UInt8) : Bool := id = 2 ∨ id = 6 ∨ id = 7

inductive Section
  | imports (items : Vec Import)
  | globals (items : Vec Global)
  | exports (items : Vec Export)
  | other (id : UInt8) (h : isScanned id = false) (bytes : List UInt8)

namespace Section

def id : Section → UInt8
  | .imports _ => 2
  | .globals _ => 6
  | .exports _ => 7
  | .other id _ _ => id

def payload : Section → List UInt8
  | .imports items => items.encode Import.encode
  | .globals items => items.encode Global.encode
  | .exports items => items.encode Export.encode
  | .other _ _ bytes => bytes

/-- The mutability of the globals that the section imports. -/
def imported : Section → List Bool
  | .imports items => items.items.flatMap fun i => i.desc.globals
  | _ => []

/-- The mutability of the globals that the section defines. -/
def defined : Section → List Bool
  | .globals items => items.items.map fun g => isMutable g.mutability
  | _ => []

def exported : Section → List Export
  | .exports items => items.items
  | _ => []

end Section

/-- A section with its size as it is written, whatever is in it. -/
structure Frame where
  id : UInt8
  size : Num
  payload : List UInt8
  size_eq : size.value = payload.length

def Frame.encode (f : Frame) : List UInt8 := f.id :: (f.size.bytes ++ f.payload)

/-- What is in a section. -/
def Frame.Holds (f : Frame) (s : Section) : Prop := f.id = s.id ∧ f.payload = s.payload

/-- The sections that the scan looks into come in the order of the specification, each at most
once. -/
def Ordered (ids : List UInt8) : Prop := (ids.filter isScanned).Pairwise (· < ·)

/-- Some bytes that are sections. Behind the exports there may be anything. -/
structure Framed where
  header : List UInt8
  frames : List Frame
  rest : List UInt8
  header_length : header.length = 8
  ordered : Ordered (frames.map Frame.id)
  ends : rest = [] ∨ ∃ f ∈ frames, f.id = 7

def Framed.encode (x : Framed) : List UInt8 := x.header ++ (x.frames.flatMap Frame.encode ++ x.rest)

/-- A binary: the scan can read the sections that it looks into. -/
structure Binary where
  header : List UInt8
  frames : List Frame
  sections : List Section
  header_length : header.length = 8
  ordered : Ordered (frames.map Frame.id)
  holds : List.Forall₂ Frame.Holds frames sections

def Binary.encode (x : Binary) : List UInt8 := x.header ++ x.frames.flatMap Frame.encode

/-- The index space of the globals: the imported ones, and then the defined ones. -/
def globalsOf (sections : List Section) : List Bool :=
  sections.flatMap Section.imported ++ sections.flatMap Section.defined

/-- **The exported globals that are mutable.** -/
def mutableExports (sections : List Section) : List Export :=
  (sections.flatMap Section.exported).filter fun e =>
    e.kind = 3 ∧ (globalsOf sections)[e.index.value]? = some true

/-! ## The order of sections -/

theorem Ordered.tail {id : UInt8} {ids : List UInt8} (h : Ordered (id :: ids)) : Ordered ids := by
  unfold Ordered at h ⊢
  rw [List.filter_cons] at h
  split at h
  · exact h.of_cons
  · exact h

/-- What the scan looks into behind a section comes later in the order. -/
theorem Ordered.lt {id : UInt8} {ids : List UInt8} (h : Ordered (id :: ids))
    (hid : isScanned id = true) {later : UInt8} (hlater : later ∈ ids)
    (hscanned : isScanned later = true) : id < later := by
  unfold Ordered at h
  rw [List.filter_cons, if_pos hid] at h
  exact List.rel_of_pairwise_cons h (List.mem_filter.mpr ⟨hlater, hscanned⟩)

/-- The scan looks into nothing behind the exports. -/
theorem Ordered.behind_exports {ids : List UInt8} (h : Ordered (7 :: ids)) :
    ∀ later ∈ ids, isScanned later = false := by
  intro later hlater
  by_contra hscanned
  rw [Bool.not_eq_false] at hscanned
  have hlt := h.lt rfl hlater hscanned
  rw [isScanned, decide_eq_true_eq] at hscanned
  rcases hscanned with rfl | rfl | rfl <;> exact absurd hlt (by decide)

theorem map_id_of_holds {frames : List Frame} {sections : List Section}
    (h : List.Forall₂ Frame.Holds frames sections) :
    frames.map Frame.id = sections.map Section.id := by
  induction h with
  | nil => rfl
  | cons hf _ ih => rw [List.map_cons, List.map_cons, hf.1, ih]

variable {sections : List Section}

theorem imported_eq_nil (h : ∀ s ∈ sections, s.id ≠ 2) :
    sections.flatMap Section.imported = [] := by
  refine List.flatMap_eq_nil_iff.mpr fun s hs => ?_
  cases s with
  | imports items => exact absurd rfl (h _ hs)
  | _ => rfl

theorem defined_eq_nil (h : ∀ s ∈ sections, s.id ≠ 6) :
    sections.flatMap Section.defined = [] := by
  refine List.flatMap_eq_nil_iff.mpr fun s hs => ?_
  cases s with
  | globals items => exact absurd rfl (h _ hs)
  | _ => rfl

theorem exported_eq_nil (h : ∀ s ∈ sections, s.id ≠ 7) :
    sections.flatMap Section.exported = [] := by
  refine List.flatMap_eq_nil_iff.mpr fun s hs => ?_
  cases s with
  | exports items => exact absurd rfl (h _ hs)
  | _ => rfl

end Haybarn.Dylink.Wasm
