import Haybarn.Lib.Run
import Haybarn.Lib.ByteMachine

/-!
# Inserting Arrow IPC streams

`InsertArrowFromIPCStream` (`webdb.cc`) is called once for each chunk of a stream. The first
call of a stream reads the options and creates the decoder; the call whose chunk brings the
end of the stream scans the decoded batches (`arrow_stream_buffer.cc`) into a table. Decoder
and options live in the connection between the calls.

Mirroring notes:

* arrow's `StreamDecoder` is a machine that is fed bytes, whatever it does with them; its
  listener is `ArrowIPCStreamBuffer`. `Consume` may also throw;
* the options arrive parsed: `none` is a document that is no object, and rapidjson makes one
  of what it cannot parse;
* creating a table from the scan or inserting into it either succeeds or throws;
* `inserted` and `replies` are a record that no function reads.

`PerStream` says what the calls are for: it knows the options and the bytes of the stream
that is under way, and nothing else.
-/

namespace Haybarn.WebDB.ArrowInsert

open Haybarn.Lib

/-! ## The options -/

/-- The JSON values, as far as `ReadFrom` tells them apart. -/
inductive Json
  | null | array | number | object
  | bool (b : Bool)
  | string (s : String)
  deriving DecidableEq, Repr

def GetTypeName : Json → String
  | .array => "array"
  | .bool _ => "boolean"
  | .number => "number"
  | .object => "object"
  | .null => "null"
  | .string _ => "string"

structure ArrowInsertOptions where
  schema_name : String := ""
  table_name : String := ""
  create_new : Bool := true
  deriving DecidableEq, Repr

inductive FieldTag
  | CREATE | NAME | SCHEMA

def FIELD_TAGS : String → Option FieldTag
  | "create" => some .CREATE
  | "createNew" => some .CREATE
  | "name" => some .NAME
  | "schema" => some .SCHEMA
  | _ => none

def RequireBoolField (value : Json) (name : String) : Except String Bool :=
  match value with
  | .bool b => .ok b
  | _ => .error s!"type mismatch for field '{name}': expected bool, received {GetTypeName value}"

def RequireStringField (value : Json) (field : String) : Except String String :=
  match value with
  | .string s => .ok s
  | _ => .error s!"type mismatch for field '{field}': expected string, received {GetTypeName value}"

namespace ArrowInsertOptions

def readMember (options : ArrowInsertOptions) (member : String × Json) :
    Except String ArrowInsertOptions :=
  match FIELD_TAGS member.1 with
  | none => .ok options
  | some .CREATE => do
    let b ← RequireBoolField member.2 member.1
    return { options with create_new := b }
  | some .NAME => do
    let s ← RequireStringField member.2 member.1
    return { options with table_name := s }
  | some .SCHEMA => do
    let s ← RequireStringField member.2 member.1
    return { options with schema_name := s }

def ReadFrom (options : ArrowInsertOptions) (doc : Option (List (String × Json))) :
    Except String ArrowInsertOptions :=
  match doc with
  | none => .ok options
  | some members => members.foldlM readMember options

end ArrowInsertOptions

/-! ## The buffer -/

/-- What the decoder tells its listener. -/
inductive Decoded (Batch : Type)
  | schema
  | recordBatch (batch : Batch)
  | eos
  deriving DecidableEq, Repr

structure ArrowIPCStreamBuffer (Batch : Type) where
  /-- `schema_` is set. -/
  schema : Bool := false
  batches : List Batch := []
  is_eos : Bool := false
  deriving DecidableEq, Repr

variable {Batch S : Type}

def ArrowIPCStreamBuffer.listen (buffer : ArrowIPCStreamBuffer Batch) :
    Decoded Batch → ArrowIPCStreamBuffer Batch
  | .schema => { buffer with schema := true }
  | .recordBatch batch => { buffer with batches := buffer.batches ++ [batch] }
  | .eos => { buffer with is_eos := true }

structure ArrowIPCStreamBufferReader (Batch : Type) where
  buffer : ArrowIPCStreamBuffer Batch
  next_batch_id : Nat := 0

namespace ArrowIPCStreamBufferReader

def ReadNext (reader : ArrowIPCStreamBufferReader Batch) :
    Option Batch × ArrowIPCStreamBufferReader Batch :=
  match reader.buffer.batches[reader.next_batch_id]? with
  | none => (none, reader)
  | some batch => (some batch, { reader with next_batch_id := reader.next_batch_id + 1 })

/-- The scan reads until there is no batch. -/
def scan (reader : ArrowIPCStreamBufferReader Batch) : Nat → List Batch
  | 0 => []
  | fuel + 1 =>
    match reader.ReadNext with
    | (none, _) => []
    | (some batch, next) => batch :: next.scan fuel

/-- The scan reads the batches from the next one on, given enough turns. -/
theorem scan_eq (reader : ArrowIPCStreamBufferReader Batch) (fuel : Nat)
    (h : reader.buffer.batches.length < reader.next_batch_id + fuel) :
    reader.scan fuel = reader.buffer.batches.drop reader.next_batch_id := by
  induction fuel generalizing reader with
  | zero => rw [scan, List.drop_eq_nil_of_le (by omega)]
  | succ fuel ih =>
    rw [scan, ReadNext]
    cases hget : reader.buffer.batches[reader.next_batch_id]? with
    | none =>
      have hlen := List.getElem?_eq_none_iff.mp hget
      rw [List.drop_eq_nil_of_le hlen]
    | some batch =>
      obtain ⟨hlt, hbatch⟩ := List.getElem?_eq_some_iff.mp hget
      dsimp only
      rw [ih _ (by dsimp only; omega), List.drop_eq_getElem_cons hlt, hbatch]

end ArrowIPCStreamBufferReader

/-- A scan from the start, as `arrow_scan` makes it. -/
def ArrowIPCStreamBuffer.scan (buffer : ArrowIPCStreamBuffer Batch) : List Batch :=
  (ArrowIPCStreamBufferReader.mk buffer 0).scan (buffer.batches.length + 1)

/-- A scan reads every batch once and in order. -/
theorem ArrowIPCStreamBuffer.scan_eq (buffer : ArrowIPCStreamBuffer Batch) :
    buffer.scan = buffer.batches := by
  rw [scan, ArrowIPCStreamBufferReader.scan_eq _ _ (by dsimp only; omega)]
  exact List.drop_zero

/-! ## The calls -/

inductive Reply
  | ok
  /-- The options cannot be read. -/
  | badOptions (message : String)
  /-- The status of `Consume`. -/
  | decodeError
  /-- `UnknownError(e.what())`: an exception was caught. -/
  | unknownError
  deriving DecidableEq, Repr

structure Connection (S Batch : Type) where
  arrow_insert_options : Option ArrowInsertOptions := none
  /-- The decoder with its buffer. -/
  arrow_ipc_stream : Option (S × ArrowIPCStreamBuffer Batch) := none
  /-- The scans that went into a table, and the options they did it with. -/
  inserted : List (ArrowInsertOptions × List Batch) := []
  replies : List Reply := []
  deriving DecidableEq

/-- A call, and what goes wrong in it. -/
structure Call where
  stream : List UInt8
  options_json : Option (List (String × Json))
  consumeThrows : Bool := false
  insertThrows : Bool := false
  deriving DecidableEq, Repr

namespace Connection

variable (D : ByteMachine S (Decoded Batch)) (c : Connection S Batch)

def reply (r : Reply) : Connection S Batch := { c with replies := c.replies ++ [r] }

/-- `arrow_insert_options_.reset(); arrow_ipc_stream_.reset();` -/
def reset : Connection S Batch := { c with arrow_insert_options := none, arrow_ipc_stream := none }

/-- The part of the call after the decoder has consumed the bytes. -/
def afterConsume (buffer : ArrowIPCStreamBuffer Batch) (insertThrows : Bool) :
    Connection S Batch :=
  if buffer.is_eos then
    if insertThrows then c.reset.reply .unknownError
    else
      -- The `assert` of the source: the options are there whenever the stream is.
      let options := c.arrow_insert_options.getD {}
      { c.reset with inserted := c.inserted ++ [(options, buffer.scan)] }.reply .ok
  else c.reply .ok

/-- The part of the call from `Consume` on, with the decoder there is. -/
def consume (decoder : S) (buffer : ArrowIPCStreamBuffer Batch) (call : Call) :
    Connection S Batch :=
  if call.consumeThrows then c.reset.reply .unknownError
  else
    let fed := D.feed decoder call.stream
    let heard := fed.output.foldl ArrowIPCStreamBuffer.listen buffer
    let consumed := { c with arrow_ipc_stream := some (fed.state, heard) }
    if fed.ok then consumed.afterConsume heard call.insertThrows
    else consumed.reply .decodeError

def InsertArrowFromIPCStream (call : Call) : Connection S Batch :=
  match c.arrow_ipc_stream with
  | some (decoder, buffer) => c.consume D decoder buffer call
  | none =>
    match ArrowInsertOptions.ReadFrom {} call.options_json with
    | .error message => { c with arrow_insert_options := none }.reply (.badOptions message)
    | .ok options =>
      { c with arrow_insert_options := some options }.consume D D.init {} call

end Connection

def step (D : ByteMachine S (Decoded Batch)) (c : Connection S Batch) (call : Call) :
    Option (Connection S Batch) :=
  some (c.InsertArrowFromIPCStream D call)

/-! ## What the calls are for -/

/-- A stream that is under way: the options of its first call, and its bytes. -/
structure PerStream (Batch : Type) where
  current : Option (ArrowInsertOptions × List UInt8) := none
  inserted : List (ArrowInsertOptions × List Batch) := []
  replies : List Reply := []
  deriving DecidableEq

namespace PerStream

/-- What the decoder makes of the bytes of one stream. -/
def decode (D : ByteMachine S (Decoded Batch)) (bytes : List UInt8) : ArrowIPCStreamBuffer Batch :=
  (D.run bytes).output.foldl ArrowIPCStreamBuffer.listen {}

def fails (t : PerStream Batch) (r : Reply) : PerStream Batch :=
  { t with current := none, replies := t.replies ++ [r] }

/-- A call of a stream with these options and with these bytes so far. -/
def goOn (D : ByteMachine S (Decoded Batch)) (t : PerStream Batch) (options : ArrowInsertOptions)
    (bytes : List UInt8) (call : Call) : PerStream Batch :=
  if call.consumeThrows then t.fails .unknownError
  else if (D.run (bytes ++ call.stream)).ok = false then t.fails .decodeError
  else if (decode D (bytes ++ call.stream)).is_eos = false then
    { t with current := some (options, bytes ++ call.stream), replies := t.replies ++ [.ok] }
  else if call.insertThrows then t.fails .unknownError
  else
    { current := none
      inserted := t.inserted ++ [(options, (decode D (bytes ++ call.stream)).batches)]
      replies := t.replies ++ [.ok] }

def step (D : ByteMachine S (Decoded Batch)) (t : PerStream Batch) (call : Call) :
    Option (PerStream Batch) :=
  match t.current with
  | some (options, bytes) => some (t.goOn D options bytes call)
  | none =>
    match ArrowInsertOptions.ReadFrom {} call.options_json with
    | .error message => some (t.fails (.badOptions message))
    | .ok options => some (t.goOn D options [] call)

end PerStream

/-- No call comes after one that the decoder has rejected. -/
def Orderly (c : Connection S Batch) (_ : Call) : Prop := c.replies.getLast? ≠ some .decodeError

instance (c : Connection S Batch) (call : Call) : Decidable (Orderly c call) :=
  inferInstanceAs (Decidable (_ ≠ _))

/-! ## The code follows the streams -/

variable {D : ByteMachine S (Decoded Batch)} {c : Connection S Batch} {t : PerStream Batch}

/-- The connection has what belongs to the stream that is under way. -/
structure Holds (D : ByteMachine S (Decoded Batch)) (c : Connection S Batch)
    (options : ArrowInsertOptions) (bytes : List UInt8) : Prop where
  options : c.arrow_insert_options = some options
  stream : c.arrow_ipc_stream = some ((D.run bytes).state, PerStream.decode D bytes)
  decoded : (D.run bytes).ok = true

/-- The code has done what it is for. Whether it also has the right decoder is said only until
the decoder has rejected something. -/
structure Follows (D : ByteMachine S (Decoded Batch)) (c : Connection S Batch)
    (t : PerStream Batch) : Prop where
  inserted : c.inserted = t.inserted
  replies : c.replies = t.replies
  current : c.replies.getLast? ≠ some .decodeError →
    c.arrow_ipc_stream = none ∧ t.current = none ∨
      ∃ options bytes, t.current = some (options, bytes) ∧ Holds D c options bytes

/-- After the call that has ended a stream, or one that has failed, both are without one. -/
theorem Follows.ended {ins : List (ArrowInsertOptions × List Batch)} {r : Reply}
    (hinserted : ins = t.inserted) (hreplies : c.replies = t.replies) :
    Follows D ({ c.reset with inserted := ins }.reply r) (t.fails r) where
  inserted := hinserted
  replies := congrArg (fun rs : List Reply => rs ++ [r]) hreplies
  current _ := .inl ⟨rfl, rfl⟩

/-- The decoder goes on where it was, and the buffer with it. -/
theorem decode_append {bytes chunk : List UInt8} (h : (D.run bytes).ok = true) :
    PerStream.decode D (bytes ++ chunk) =
      (D.feed (D.run bytes).state chunk).output.foldl ArrowIPCStreamBuffer.listen
        (PerStream.decode D bytes) := by
  rw [PerStream.decode, D.run_append _ _ h, ByteMachine.goOn, List.foldl_append]
  rfl

theorem consume_follows {options : ArrowInsertOptions} {bytes : List UInt8} {call : Call}
    (hinserted : c.inserted = t.inserted) (hreplies : c.replies = t.replies)
    (hoptions : c.arrow_insert_options = some options) (hok : (D.run bytes).ok = true) :
    Follows D (c.consume D (D.run bytes).state (PerStream.decode D bytes) call)
      (t.goOn D options bytes call) := by
  have hrun := D.run_append bytes call.stream hok
  have hstate : (D.run (bytes ++ call.stream)).state =
      (D.feed (D.run bytes).state call.stream).state := by rw [hrun]; rfl
  have hfed : (D.run (bytes ++ call.stream)).ok =
      (D.feed (D.run bytes).state call.stream).ok := by rw [hrun]; rfl
  unfold Connection.consume PerStream.goOn
  dsimp only
  rw [← decode_append hok, ← hstate, ← hfed]
  by_cases hthrows : call.consumeThrows = true
  · rw [if_pos hthrows, if_pos hthrows]
    exact .ended hinserted hreplies
  rw [if_neg hthrows, if_neg hthrows]
  cases hdecoded : (D.run (bytes ++ call.stream)).ok with
  | false =>
    -- The code keeps the decoder here; what it holds is not said any more.
    rw [if_neg nofun, if_pos rfl]
    refine ⟨hinserted, congrArg (fun rs : List Reply => rs ++ [.decodeError]) hreplies, fun hlast => ?_⟩
    exact absurd List.getLast?_concat hlast
  | true =>
    rw [if_pos rfl, if_neg (Bool.noConfusion : ¬ true = false)]
    unfold Connection.afterConsume
    cases heos : (PerStream.decode D (bytes ++ call.stream)).is_eos with
    | false =>
      rw [if_neg nofun, if_pos rfl]
      refine ⟨hinserted, congrArg (fun rs : List Reply => rs ++ [.ok]) hreplies, fun _ => .inr ?_⟩
      exact ⟨options, _, rfl, hoptions, rfl, hdecoded⟩
    | true =>
      rw [if_pos rfl, if_neg (Bool.noConfusion : ¬ true = false)]
      by_cases hinsert : call.insertThrows = true
      · rw [if_pos hinsert, if_pos hinsert]
        exact .ended hinserted hreplies
      · rw [if_neg hinsert, if_neg hinsert]
        refine ⟨?_, congrArg (fun rs : List Reply => rs ++ [.ok]) hreplies, fun _ => .inl ⟨rfl, rfl⟩⟩
        change c.inserted ++ [(c.arrow_insert_options.getD {}, _)] = _
        rw [hoptions, ArrowIPCStreamBuffer.scan_eq, hinserted]
        rfl

theorem step_follows {call : Call} {c' : Connection S Batch} (h : Follows D c t)
    (hok : Orderly c call) (hs : step D c call = some c') :
    ∃ t', PerStream.step D t call = some t' ∧ Follows D c' t' := by
  obtain rfl := Option.some.inj hs
  unfold Connection.InsertArrowFromIPCStream PerStream.step
  rcases h.current hok with ⟨hnone, hcurrent⟩ | ⟨options, bytes, hcurrent, hholds⟩
  · rw [hnone, hcurrent]
    dsimp only
    cases ArrowInsertOptions.ReadFrom {} call.options_json with
    | error message =>
      have hreplies : c.replies ++ [.badOptions message] = t.replies ++ [.badOptions message] := by
        rw [h.replies]
      exact ⟨_, rfl, h.inserted, hreplies, fun _ => .inl ⟨rfl, rfl⟩⟩
    | ok options =>
      refine ⟨_, rfl, ?_⟩
      have hstart := @consume_follows _ _ D ⟨some options, none, c.inserted, c.replies⟩ t options []
        call h.inserted h.replies rfl rfl
      exact hstart
  · rw [hholds.stream, hcurrent]
    exact ⟨_, rfl, consume_follows h.inserted h.replies hholds.options hholds.decoded⟩

/-- **Insertion is per stream.** As long as no call follows one that the decoder has rejected,
the calls insert and reply what they are for: each stream's batches once and in order, with the
options of its own first call. -/
theorem insert_per_stream {es : List Call} (hrun : Run (step D) Orderly {} es c) :
    ∃ t, Run (PerStream.step D) Always {} es t ∧ c.inserted = t.inserted ∧
      c.replies = t.replies := by
  have hfollows : ∃ t, Run (PerStream.step D) Always {} es t ∧ Follows D c t := by
    induction hrun with
    | nil => exact ⟨{}, .nil, rfl, rfl, fun _ => .inl ⟨rfl, rfl⟩⟩
    | snoc _ hok hs ih =>
      obtain ⟨t, ht, hfollows⟩ := ih
      obtain ⟨t', hs', hfollows'⟩ := step_follows hfollows hok hs
      exact ⟨t', .snoc ht trivial hs', hfollows'⟩
  obtain ⟨t, ht, hfollows⟩ := hfollows
  exact ⟨t, ht, hfollows.inserted, hfollows.replies⟩

/-! ## A decoder -/

/-- Arrow's framing of messages without a body. The metadata are not looked into, so this is
the decoder of streams that consist of a schema. -/
inductive Framing
  | initial (bytes : List UInt8)
  | metadataLength (bytes : List UInt8)
  /-- How many bytes of metadata are missing. -/
  | metadata (missing : Nat)
  | eos
  deriving DecidableEq

namespace Framing

/-- A little-endian 32-bit integer. -/
def int32 (bytes : List UInt8) : Int :=
  Int.bmod (bytes.foldr (fun b n => b.toNat + 256 * n) 0) (2 ^ 32)

/-- The length of the metadata has been read. -/
def ofLength (length : Int) : Fed Framing (Decoded Nat) :=
  if length < 0 then ⟨.initial [], [], false⟩
  else if length = 0 then ⟨.eos, [.eos], true⟩
  else ⟨.metadata length.toNat, [], true⟩

def push : Framing → UInt8 → Fed Framing (Decoded Nat)
  | .initial bytes, b =>
    if bytes.length < 3 then ⟨.initial (bytes ++ [b]), [], true⟩
    else if int32 (bytes ++ [b]) = -1 then ⟨.metadataLength [], [], true⟩
    else ofLength (int32 (bytes ++ [b]))
  | .metadataLength bytes, b =>
    if bytes.length < 3 then ⟨.metadataLength (bytes ++ [b]), [], true⟩
    else ofLength (int32 (bytes ++ [b]))
  | .metadata missing, _ =>
    if missing ≤ 1 then ⟨.initial [], [.schema], true⟩ else ⟨.metadata (missing - 1), [], true⟩
  | .eos, _ => ⟨.eos, [], true⟩

def machine : ByteMachine Framing (Decoded Nat) := ⟨.initial [], push⟩

/-- The message of a schema with one field `a` of 32-bit integers. -/
def schemaMessage : List UInt8 :=
  [255, 255, 255, 255, 120, 0, 0, 0,
    16, 0, 0, 0, 0, 0, 10, 0, 12, 0, 6, 0, 5, 0, 8, 0, 10, 0, 0, 0, 0, 1, 4, 0,
    12, 0, 0, 0, 8, 0, 8, 0, 0, 0, 4, 0, 8, 0, 0, 0, 4, 0, 0, 0, 1, 0, 0, 0,
    20, 0, 0, 0, 16, 0, 20, 0, 8, 0, 6, 0, 7, 0, 12, 0, 0, 0, 16, 0, 16, 0, 0, 0,
    0, 0, 1, 2, 16, 0, 0, 0, 28, 0, 0, 0, 4, 0, 0, 0, 0, 0, 0, 0, 1, 0, 0, 0,
    97, 0, 0, 0, 8, 0, 12, 0, 8, 0, 7, 0, 8, 0, 0, 0, 0, 0, 0, 1, 32, 0, 0, 0]

/-- A stream without batches: the schema and the end. -/
def emptyStream : List UInt8 := schemaMessage ++ [255, 255, 255, 255, 0, 0, 0, 0]

end Framing

open Framing

/-- Options that cannot be read, and after them a stream in two chunks. -/
def twoChunks : List Call :=
  [⟨[255], some [("create", .number)], false, false⟩,
    ⟨emptyStream.take 100, some [("name", .string "t")], false, false⟩,
    ⟨emptyStream.drop 100, none, false, false⟩]

theorem insert_per_stream_chunks : ∃ (c : Connection Framing Nat) (t : PerStream Nat),
    Run (PerStream.step machine) Always {} twoChunks t ∧ c.inserted = t.inserted ∧
      c.inserted = [({ table_name := "t" }, [])] := by
  have hrun : Run (step machine) Orderly {} twoChunks _ := .of_execute rfl
  obtain ⟨t, ht, hinserted, -⟩ := insert_per_stream hrun
  exact ⟨_, t, ht, hinserted, by decide +kernel⟩

/-- Bytes that cannot be decoded, and after them a stream for another table. -/
def afterGarbage : List Call :=
  [⟨[254, 255, 255, 255], some [("name", .string "a")], false, false⟩,
    ⟨emptyStream, some [("name", .string "b")], false, false⟩]

theorem inserted_into_other_table : ∃ (c : Connection Framing Nat) (t : PerStream Nat),
    Run (step machine) Always {} afterGarbage c ∧
      Run (PerStream.step machine) Always {} afterGarbage t ∧
      c.inserted = [({ table_name := "a" }, [])] ∧ t.inserted = [({ table_name := "b" }, [])] :=
  ⟨_, _, .of_execute rfl, .of_execute rfl, by decide +kernel, by decide +kernel⟩

end Haybarn.WebDB.ArrowInsert
