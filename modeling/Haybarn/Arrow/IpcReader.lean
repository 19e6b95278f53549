import Mathlib

/-!
# Reading an Arrow IPC stream

`ArrowStreamReader` (`arrow_reader.rs`) reads the stream of a query result buffer by buffer: the
schema from the first one (`try_new`), and from each of the others one record batch, after the
dictionaries in front of it (`maybe_next`).

**A buffer is read as a record batch exactly when it starts with encapsulated dictionaries and,
behind them, an encapsulated record batch** (`maybe_next_some_iff`); what follows is not looked at.

Mirroring notes:
- A `Reader` is what is left of its buffer.
- What arrow makes of metadata and bodies is up to a `Decoder`; an error is its text.
- A `usize` has 32 bits: the length of a body is cut to them, and a negative length is a large one.
- `maybe_next` calls itself for the rest of the buffer; `turn` is what it does before that.
-/

namespace Haybarn.Arrow.Ipc

abbrev Bytes := List UInt8

inductive MessageHeader
  | NONE | Schema | DictionaryBatch | RecordBatch
  /-- A type by its code: tensors, and what flatbuffers does not know. -/
  | other (code : UInt8)
  deriving DecidableEq, Repr

/-- `{:?}` -/
def MessageHeader.debug : MessageHeader → String
  | .NONE => "NONE"
  | .Schema => "Schema"
  | .DictionaryBatch => "DictionaryBatch"
  | .RecordBatch => "RecordBatch"
  | .other 4 => "Tensor"
  | .other 5 => "SparseTensor"
  | .other code => s!"<UNKNOWN {code}>"

structure Message (Table : Type) where
  header_type : MessageHeader
  /-- The table of the header, unless it is missing. -/
  header : Option Table
  bodyLength : Int
  deriving DecidableEq, Repr

/-- `header_as_schema`, `header_as_record_batch`, `header_as_dictionary_batch` -/
def Message.header_as {Table : Type} (message : Message Table) (type : MessageHeader) :
    Option Table :=
  if message.header_type = type then message.header else none

abbrev Dictionaries (Values : Type) := Int → Option Values

/-- What the reader calls of arrow. -/
structure Decoder (Table Schema Values Batch : Type) where
  root_as_message : Bytes → Except String (Message Table)
  fb_to_schema : Table → Schema
  /-- The dictionaries after a dictionary batch with this body. -/
  read_dictionary : Bytes → Table → Schema → Dictionaries Values →
    Except String (Dictionaries Values)
  read_record_batch : Bytes → Table → Schema → Dictionaries Values → Except String Batch

/-! ## Lengths -/

def CONTINUATION_MARKER : Bytes := [255, 255, 255, 255]

/-- `from_le_bytes` of a number without a sign. -/
def fromLeBytes (bytes : Bytes) : Nat := bytes.foldr (fun byte n => byte.toNat + 256 * n) 0

/-- `i32::from_le_bytes` -/
def i32FromLeBytes (bytes : Bytes) : Int := (fromLeBytes bytes : Int).bmod 4294967296

/-- `as usize` -/
def asUsize (n : Int) : Nat := (n % 4294967296).toNat

/-- The four bytes of a number, the lowest first. -/
def toLeBytes (n : Nat) : Bytes :=
  [UInt8.ofNat n, UInt8.ofNat (n / 256), UInt8.ofNat (n / 65536), UInt8.ofNat (n / 16777216)]

theorem fromLeBytes_toLeBytes {n : Nat} (h : n < 4294967296) : fromLeBytes (toLeBytes n) = n := by
  simp only [toLeBytes, fromLeBytes, List.foldr_cons, List.foldr_nil, UInt8.toNat_ofNat']
  omega

/-- A length that is not negative is read back. -/
theorem i32FromLeBytes_toLeBytes {n : Nat} (h : n < 2147483648) :
    i32FromLeBytes (toLeBytes n) = n := by
  unfold i32FromLeBytes
  rw [fromLeBytes_toLeBytes (by omega), Int.bmod_eq_of_le (by omega) (by omega)]

theorem asUsize_natCast {n : Nat} (h : n < 4294967296) : asUsize n = n := by
  unfold asUsize
  omega

/-! ## The reader -/

/-- `next` of a `Reader`: the bytes, and what is left. -/
def next (reader : Bytes) (n : Nat) : Except String (Bytes × Bytes) :=
  if reader.length < n then .error "insufficient bytes available"
  else .ok (reader.take n, reader.drop n)

theorem next_ok_iff {reader bytes rest : Bytes} {n : Nat} :
    next reader n = .ok (bytes, rest) ↔ reader = bytes ++ rest ∧ bytes.length = n := by
  unfold next
  constructor
  · intro h
    split at h
    next => cases h
    next hle =>
      obtain ⟨rfl, rfl⟩ := Prod.mk.inj (Except.ok.inj h)
      rw [List.length_take]
      exact ⟨(List.take_append_drop n reader).symm, by omega⟩
  · rintro ⟨rfl, rfl⟩
    rw [if_neg (by rw [List.length_append]; omega), List.take_left, List.drop_left]

structure ArrowStreamReader (Schema Values : Type) where
  schema : Schema
  dictionaries_by_field : Dictionaries Values
  finished : Bool

variable {Table Schema Values Batch : Type} (arrow : Decoder Table Schema Values Batch)

/-- The length of the metadata: behind a continuation marker it comes next. -/
def metaLength (meta_size reader : Bytes) : Except String (Int × Bytes) :=
  if meta_size = CONTINUATION_MARKER then
    (next reader 4).map fun (size, rest) => (i32FromLeBytes size, rest)
  else .ok (i32FromLeBytes meta_size, reader)

/-- The metadata, as a message. -/
def readMessage (meta_len : Int) (reader : Bytes) : Except String (Message Table × Bytes) :=
  match next reader (asUsize meta_len) with
  | .error e => .error e
  | .ok (meta_buffer, rest) =>
    match arrow.root_as_message meta_buffer with
    | .error e => .error ("Unable to get root as message: " ++ e)
    | .ok message => .ok (message, rest)

/-- What is at the beginning of a buffer. -/
inductive Front (Table : Type)
  /-- Fewer than four bytes. -/
  | short
  | failed (error : String)
  /-- A length of 0, which ends the stream. -/
  | ended
  | message (message : Message Table) (rest : Bytes)

def front (buffer : Bytes) : Front Table :=
  match next buffer 4 with
  | .error _ => .short
  | .ok (meta_size, reader) =>
    match metaLength meta_size reader with
    | .error e => .failed e
    | .ok (meta_len, reader) =>
      if meta_len = 0 then .ended
      else
        match readMessage arrow meta_len reader with
        | .error e => .failed e
        | .ok (message, rest) => .message message rest

namespace ArrowStreamReader

def try_new (buffer : Bytes) : Except String (ArrowStreamReader Schema Values) := do
  let (meta_size, reader) ← next buffer 4
  let (meta_len, reader) ← metaLength meta_size reader
  let (message, _) ← readMessage arrow meta_len reader
  match message.header_as .Schema with
  | none => .error "Unable to read IPC message as schema"
  | some ipc_schema =>
    .ok { schema := arrow.fb_to_schema ipc_schema, dictionaries_by_field := fun _ => none,
          finished := false }

/-- What `maybe_next` does first: it returns, or it goes on behind a dictionary. -/
inductive Turn (Schema Values Batch : Type)
  | returns (result : Except String (Option Batch)) (s : ArrowStreamReader Schema Values)
  | again (s : ArrowStreamReader Schema Values) (tail : Bytes)

def turn (s : ArrowStreamReader Schema Values) (buffer : Bytes) : Turn Schema Values Batch :=
  if s.finished then .returns (.ok none) s
  else
    match front arrow buffer with
    | .short => .returns (.ok none) { s with finished := true }
    | .failed e => .returns (.error e) s
    | .ended => .returns (.ok none) { s with finished := true }
    | .message message reader =>
      match message.header_type with
      | .Schema => .returns (.error "Not expecting a schema when messages are read") s
      | .RecordBatch =>
        match message.header_as .RecordBatch with
        | none => .returns (.error "Unable to read IPC message as record batch") s
        | some batch =>
          match next reader (asUsize message.bodyLength) with
          | .error e => .returns (.error e) s
          | .ok (buf, _) =>
            .returns ((arrow.read_record_batch buf batch s.schema s.dictionaries_by_field).map some)
              s
      | .DictionaryBatch =>
        match message.header_as .DictionaryBatch with
        | none => .returns (.error "Unable to read IPC message as dictionary batch") s
        | some batch =>
          match next reader (asUsize message.bodyLength) with
          | .error e => .returns (.error e) s
          | .ok (buf, tail) =>
            match arrow.read_dictionary buf batch s.schema s.dictionaries_by_field with
            | .error e => .returns (.error e) s
            | .ok dictionaries => .again { s with dictionaries_by_field := dictionaries } tail
      | .NONE => .returns (.ok none) s
      | .other code =>
        .returns (.error ("Reading types other than record batches not yet supported, unable to " ++
          s!"read {(MessageHeader.other code).debug} ")) s

end ArrowStreamReader

/-! ## Encapsulated messages -/

/-- An encapsulated message in front of the rest: an optional marker, the length of the metadata,
and the metadata. -/
def Encapsulated (buffer : Bytes) (message : Message Table) (rest : Bytes) : Prop :=
  ∃ marker size metadata, buffer = marker ++ (size ++ (metadata ++ rest)) ∧ size.length = 4 ∧
    (marker = CONTINUATION_MARKER ∨ marker = [] ∧ size ≠ CONTINUATION_MARKER) ∧
    i32FromLeBytes size ≠ 0 ∧ metadata.length = asUsize (i32FromLeBytes size) ∧
    arrow.root_as_message metadata = .ok message

/-- An encapsulated message of this type with this table, and its body. -/
def Framed (type : MessageHeader) (buffer : Bytes) (table : Table) (body rest : Bytes) : Prop :=
  ∃ message, Encapsulated arrow buffer message (body ++ rest) ∧ message.header_type = type ∧
    message.header = some table ∧ body.length = asUsize message.bodyLength

variable {arrow}

theorem readMessage_ok_iff {meta_len : Int} {reader rest : Bytes} {message : Message Table} :
    readMessage arrow meta_len reader = .ok (message, rest) ↔
      ∃ metadata, reader = metadata ++ rest ∧ metadata.length = asUsize meta_len ∧
        arrow.root_as_message metadata = .ok message := by
  unfold readMessage
  constructor
  · intro h
    split at h
    next => cases h
    next metadata rest' hnext =>
      obtain ⟨hreader, hlength⟩ := next_ok_iff.mp hnext
      split at h
      next => cases h
      next message' hroot =>
        obtain ⟨rfl, rfl⟩ := Prod.mk.inj (Except.ok.inj h)
        exact ⟨metadata, hreader, hlength, hroot⟩
  · rintro ⟨metadata, hreader, hlength, hroot⟩
    rw [next_ok_iff.mpr ⟨hreader, hlength⟩]
    dsimp only
    rw [hroot]

theorem metaLength_ok_iff {meta_size reader rest : Bytes} {meta_len : Int} :
    metaLength meta_size reader = .ok (meta_len, rest) ↔
      (meta_size = CONTINUATION_MARKER ∧ ∃ size, reader = size ++ rest ∧ size.length = 4 ∧
        i32FromLeBytes size = meta_len) ∨
      (meta_size ≠ CONTINUATION_MARKER ∧ reader = rest ∧ i32FromLeBytes meta_size = meta_len) := by
  unfold metaLength
  split
  next hmarker =>
    constructor
    · intro h
      rcases hnext : next reader 4 with e | ⟨size, rest'⟩
      · rw [hnext] at h
        cases h
      · rw [hnext] at h
        obtain ⟨hlen, rfl⟩ := Prod.mk.inj (Except.ok.inj h)
        obtain ⟨hreader, hlength⟩ := next_ok_iff.mp hnext
        exact .inl ⟨hmarker, size, hreader, hlength, hlen⟩
    · rintro (⟨-, size, hreader, hlength, rfl⟩ | ⟨hne, -⟩)
      · rw [next_ok_iff.mpr ⟨hreader, hlength⟩]
        rfl
      · exact absurd hmarker hne
  next hmarker =>
    constructor
    · intro h
      obtain ⟨hlen, hrest⟩ := Prod.mk.inj (Except.ok.inj h)
      exact .inr ⟨hmarker, hrest, hlen⟩
    · rintro (⟨h, -⟩ | ⟨-, rfl, rfl⟩)
      · exact absurd h hmarker
      · rfl

/-- **What the reader takes for a message is an encapsulated one.** -/
theorem front_message_iff {buffer rest : Bytes} {message : Message Table} :
    front arrow buffer = .message message rest ↔ Encapsulated arrow buffer message rest := by
  unfold front
  constructor
  · intro h
    split at h
    next => cases h
    next meta_size reader hnext =>
      obtain ⟨rfl, hsize⟩ := next_ok_iff.mp hnext
      split at h
      next => cases h
      next meta_len reader' hlength =>
        split at h
        next => cases h
        next hzero =>
          split at h
          next => cases h
          next message' rest' hread =>
            obtain ⟨rfl, rfl⟩ := Front.message.inj h
            obtain ⟨metadata, rfl, hmetadata, hroot⟩ := readMessage_ok_iff.mp hread
            rcases metaLength_ok_iff.mp hlength with ⟨rfl, size, rfl, hfour, rfl⟩ | ⟨hne, rfl, rfl⟩
            · exact ⟨CONTINUATION_MARKER, size, metadata, rfl, hfour, .inl rfl, hzero, hmetadata,
                hroot⟩
            · exact ⟨[], meta_size, metadata, rfl, hsize, .inr ⟨rfl, hne⟩, hzero, hmetadata, hroot⟩
  · rintro ⟨marker, size, metadata, rfl, hsize, hmarker, hzero, hmetadata, hroot⟩
    have hread := readMessage_ok_iff.mpr ⟨metadata, (rfl : metadata ++ rest = _), hmetadata, hroot⟩
    rcases hmarker with rfl | ⟨rfl, hne⟩
    · have hnext : next (CONTINUATION_MARKER ++ (size ++ (metadata ++ rest))) 4 =
          .ok (CONTINUATION_MARKER, size ++ (metadata ++ rest)) := next_ok_iff.mpr ⟨rfl, rfl⟩
      rw [hnext]
      dsimp only
      rw [metaLength_ok_iff.mpr (.inl ⟨rfl, size, rfl, hsize, rfl⟩)]
      dsimp only
      rw [if_neg hzero, hread]
    · rw [List.nil_append, next_ok_iff.mpr ⟨rfl, hsize⟩]
      dsimp only
      rw [metaLength_ok_iff.mpr (.inr ⟨hne, rfl, rfl⟩)]
      dsimp only
      rw [if_neg hzero, hread]

theorem Encapsulated.length_lt {buffer rest : Bytes} {message : Message Table}
    (h : Encapsulated arrow buffer message rest) : rest.length < buffer.length := by
  obtain ⟨marker, size, metadata, rfl, hsize, -⟩ := h
  simp only [List.length_append]
  omega

/-! ## From buffer to record batch -/

namespace ArrowStreamReader

variable {s s' : ArrowStreamReader Schema Values} {buffer tail : Bytes}
  {result : Except String (Option Batch)}

/-- A dictionary that has been read: it stands at the beginning, and the rest is behind it. -/
theorem turn_again_iff : turn arrow s buffer = .again s' tail ↔
    s.finished = false ∧ ∃ table body dictionaries,
      Framed arrow .DictionaryBatch buffer table body tail ∧
      arrow.read_dictionary body table s.schema s.dictionaries_by_field = .ok dictionaries ∧
      s' = { s with dictionaries_by_field := dictionaries } := by
  unfold turn Message.header_as
  constructor
  · intro h
    split at h
    next => cases h
    next hfinished =>
      split at h <;> try cases h
      next message reader hfront =>
        split at h <;> try cases h
        next => split at h <;> try cases h
                split at h <;> cases h
        next htype =>
          rw [if_pos htype] at h
          split at h
          next => cases h
          next table hheader =>
            split at h
            next => cases h
            next body tail' hnext =>
              split at h
              next => cases h
              next dictionaries hread =>
                obtain ⟨rfl, rfl⟩ := Turn.again.inj h
                obtain ⟨rfl, hbody⟩ := next_ok_iff.mp hnext
                exact ⟨Bool.eq_false_iff.mpr hfinished, table, body, dictionaries,
                  ⟨message, front_message_iff.mp hfront, htype, hheader, hbody⟩, hread, rfl⟩
  · rintro ⟨hfinished, table, body, dictionaries, ⟨message, hfront, htype, hheader, hbody⟩, hread,
      rfl⟩
    rw [hfinished, if_neg Bool.false_ne_true, front_message_iff.mpr hfront]
    dsimp only
    rw [htype, if_pos rfl, hheader]
    dsimp only
    rw [next_ok_iff.mpr ⟨rfl, hbody⟩]
    dsimp only
    rw [hread]

/-- A record batch that has been read stands at the beginning. -/
theorem turn_some_iff {batch : Batch} : turn arrow s buffer = .returns (.ok (some batch)) s' ↔
    s.finished = false ∧ s' = s ∧ ∃ table body rest,
      Framed arrow .RecordBatch buffer table body rest ∧
      arrow.read_record_batch body table s.schema s.dictionaries_by_field = .ok batch := by
  unfold turn Message.header_as
  constructor
  · intro h
    split at h
    next => cases h
    next hfinished =>
      split at h <;> try cases h
      next message reader hfront =>
        split at h <;> try cases h
        next htype =>
          rw [if_pos htype] at h
          split at h
          next => cases h
          next table hheader =>
            split at h
            next => cases h
            next body rest hnext =>
              obtain ⟨hresult, rfl⟩ := Turn.returns.inj h
              obtain ⟨rfl, hbody⟩ := next_ok_iff.mp hnext
              rcases hread : arrow.read_record_batch body table s.schema s.dictionaries_by_field
                with e | batch'
              · rw [hread] at hresult
                cases hresult
              · rw [hread] at hresult
                obtain rfl := Option.some.inj (Except.ok.inj hresult)
                exact ⟨Bool.eq_false_iff.mpr hfinished, rfl, table, body, rest,
                  ⟨message, front_message_iff.mp hfront, htype, hheader, hbody⟩, hread⟩
        next =>
          split at h <;> try cases h
          split at h <;> try cases h
          split at h <;> cases h
  · rintro ⟨hfinished, rfl, table, body, rest, ⟨message, hfront, htype, hheader, hbody⟩, hread⟩
    rw [hfinished, if_neg Bool.false_ne_true, front_message_iff.mpr hfront]
    dsimp only
    rw [htype, if_pos rfl, hheader]
    dsimp only
    rw [next_ok_iff.mpr ⟨rfl, hbody⟩]
    dsimp only
    rw [hread]
    rfl

theorem turn_shorter (h : turn arrow s buffer = .again s' tail) : tail.length < buffer.length := by
  obtain ⟨-, table, body, dictionaries, ⟨message, hfront, -⟩, -⟩ := turn_again_iff.mp h
  have := hfront.length_lt
  rw [List.length_append] at this
  omega

variable (arrow) in
def maybe_next (s : ArrowStreamReader Schema Values) (buffer : Bytes) :
    Except String (Option Batch) × ArrowStreamReader Schema Values :=
  match _h : turn arrow s buffer with
  | .returns result s' => (result, s')
  | .again s' tail => maybe_next s' tail
termination_by buffer.length
decreasing_by exact turn_shorter _h

theorem maybe_next_returns (h : turn arrow s buffer = .returns result s') :
    maybe_next arrow s buffer = (result, s') := by
  rw [maybe_next]
  split
  next hreturns =>
    obtain ⟨rfl, rfl⟩ := Turn.returns.inj (h.symm.trans hreturns)
    rfl
  next hagain => cases h.symm.trans hagain

theorem maybe_next_again (h : turn arrow s buffer = .again s' tail) :
    maybe_next arrow s buffer = maybe_next arrow s' tail := by
  rw [maybe_next]
  split
  next hreturns => cases h.symm.trans hreturns
  next hagain =>
    obtain ⟨rfl, rfl⟩ := Turn.again.inj (h.symm.trans hagain)
    rfl

variable (arrow) in
/-- The bytes hold a record batch for the reader, behind dictionaries that it keeps. -/
inductive Holds : ArrowStreamReader Schema Values → Bytes → Batch →
    ArrowStreamReader Schema Values → Prop
  | batch {s : ArrowStreamReader Schema Values} {buffer body rest : Bytes} {table : Table}
      {batch : Batch} : Framed arrow .RecordBatch buffer table body rest →
      arrow.read_record_batch body table s.schema s.dictionaries_by_field = .ok batch →
      Holds s buffer batch s
  | dictionary {s s' : ArrowStreamReader Schema Values} {buffer body tail : Bytes}
      {table : Table} {dictionaries : Dictionaries Values} {batch : Batch} :
      Framed arrow .DictionaryBatch buffer table body tail →
      arrow.read_dictionary body table s.schema s.dictionaries_by_field = .ok dictionaries →
      Holds { s with dictionaries_by_field := dictionaries } tail batch s' →
      Holds s buffer batch s'

/-- What is held is read. -/
theorem Holds.maybe_next {batch : Batch} (h : Holds arrow s buffer batch s')
    (hfinished : s.finished = false) : maybe_next arrow s buffer = (.ok (some batch), s') := by
  induction h with
  | batch hframed hread =>
    exact maybe_next_returns (turn_some_iff.mpr ⟨hfinished, rfl, _, _, _, hframed, hread⟩)
  | dictionary hframed hread _ ih =>
    rw [maybe_next_again (turn_again_iff.mpr ⟨hfinished, _, _, _, hframed, hread, rfl⟩)]
    exact ih hfinished

/-- **A buffer is read as a record batch exactly when it holds one**, unless the reader has
finished. -/
theorem maybe_next_some_iff {batch : Batch} :
    ArrowStreamReader.maybe_next arrow s buffer = (.ok (some batch), s') ↔
      s.finished = false ∧ Holds arrow s buffer batch s' := by
  constructor
  · intro h
    -- by induction on the buffer, as the recursion leaves less of it
    fun_induction ArrowStreamReader.maybe_next arrow s buffer with
    | case1 s buffer result s₁ hturn =>
      obtain ⟨rfl, rfl⟩ := Prod.mk.inj h
      obtain ⟨hfinished, rfl, table, body, rest, hframed, hread⟩ := turn_some_iff.mp hturn
      exact ⟨hfinished, .batch hframed hread⟩
    | case2 s buffer s₁ tail hturn ih =>
      obtain ⟨hfinished, table, body, dictionaries, hframed, hread, rfl⟩ :=
        turn_again_iff.mp hturn
      exact ⟨hfinished, .dictionary hframed hread (ih h).2⟩
  · exact fun h => h.2.maybe_next h.1

end ArrowStreamReader

end Haybarn.Arrow.Ipc
