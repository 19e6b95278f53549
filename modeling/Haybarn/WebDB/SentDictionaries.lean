import Haybarn.Arrow.IpcReader
import Haybarn.Lib.Run
import Haybarn.Worker.ResultStream

/-!
# Dictionaries of a result stream

`FetchQueryResults` (`webdb.cc`) serializes each chunk of a query result for a reader that already
has the schema and all chunks before: in front of the record batch it writes the dictionaries that
have not been sent yet. `sent_dictionaries_` holds the ids of those that have, until
`StreamQueryResult` starts another stream.

**Whatever happens on a connection, a reader of a stream's schema reads from its chunks just the
batches that were fetched** (`stream_read_back`), if an id stands for the same values all the time,
and no chunk needs a dictionary that was lost. One is lost when a chunk fails after it was written:
its id is in `sent_dictionaries_` by then, and the buffer it was written to is dropped.
The buffers of an iterator of it are read alike (`iterated_read_back`).

Mirroring notes:
- What DuckDB returns is up to the event: a batch comes as it is after the import and the patch, or
  with the error of these. An exception is an error.
- What arrow writes is up to an `Encoder`, and `Agree` is what its format promises to a reader.
- `MaterializeQueryResult` and `PendingQuery` reset the result and the schema, and do nothing else
  to a stream (`reset`).
- A chunk of a result without a schema is undefined, and no step.
- `streams`, `collected` and `lost` are a record that no function reads.
-/

namespace Haybarn.WebDB.SentDictionaries

open Haybarn.Lib Haybarn.Arrow.Ipc
open Haybarn.Worker.ResultStream (IteratorResult AsyncResultStreamIterator chunks given delivery)

/-! ## What arrow writes -/

/-- `IpcPayload` -/
structure Payload where
  metadata : Bytes
  body : Bytes
  deriving DecidableEq, Repr

/-- Metadata is padded to a multiple of 8 bytes. -/
def padded (metadata : Bytes) : Bytes :=
  metadata ++ List.replicate ((8 - metadata.length % 8) % 8) 0

/-- The encapsulated message format. -/
def encapsulated (payload : Payload) : Bytes :=
  CONTINUATION_MARKER ++ (toLeBytes (padded payload.metadata).length ++
    (padded payload.metadata ++ payload.body))

/-- What the connection calls of arrow. -/
structure Encoder (Schema Values Batch : Type) where
  SerializeSchema : Schema → Except String Bytes
  CollectDictionaries : Batch → Schema → Except String (List (Int × Values))
  GetDictionaryPayload : Int → Values → Except String Payload
  GetRecordBatchPayload : Batch → Except String Payload
  WriteIpcPayload : Payload → Except String Bytes

variable {Table Schema Values Batch : Type}

/-- All these dictionaries are known. -/
def Knows (known : Dictionaries Values) (dicts : List (Int × Values)) : Prop :=
  ∀ d ∈ dicts, known d.1 = some d.2

/-- A reader finds the message in a payload. -/
structure Payload.IsMessage (dec : Decoder Table Schema Values Batch) (payload : Payload)
    (type : MessageHeader) (table : Table) : Prop where
  nonempty : payload.metadata ≠ []
  metadata_fits : (padded payload.metadata).length < 2147483648
  body_fits : payload.body.length < 4294967296
  root : dec.root_as_message (padded payload.metadata) =
    .ok { header_type := type, header := some table, bodyLength := payload.body.length }

/-- **What arrow promises**: a dictionary is read where the ones collected before it are known, as
those are that it is made of, and a record batch where all of its dictionaries are. -/
structure Agree (enc : Encoder Schema Values Batch) (dec : Decoder Table Schema Values Batch) :
    Prop where
  written {payload : Payload} {bytes : Bytes} :
    enc.WriteIpcPayload payload = .ok bytes → bytes = encapsulated payload
  schema {schema : Schema} {bytes : Bytes} : enc.SerializeSchema schema = .ok bytes →
    ∃ payload table, bytes = encapsulated payload ∧ payload.IsMessage dec .Schema table ∧
      dec.fb_to_schema table = schema
  dictionary {batch : Batch} {schema : Schema} {before after : List (Int × Values)} {id : Int}
      {values : Values} {payload : Payload} :
    enc.CollectDictionaries batch schema = .ok (before ++ (id, values) :: after) →
    enc.GetDictionaryPayload id values = .ok payload →
    ∃ table, payload.IsMessage dec .DictionaryBatch table ∧ ∀ known, Knows known before →
      dec.read_dictionary payload.body table schema known =
        .ok (Function.update known id (some values))
  recordBatch {batch : Batch} {schema : Schema} {dicts : List (Int × Values)} {payload : Payload} :
    enc.CollectDictionaries batch schema = .ok dicts →
    enc.GetRecordBatchPayload batch = .ok payload →
    ∃ table, payload.IsMessage dec .RecordBatch table ∧ ∀ known, Knows known dicts →
      dec.read_record_batch payload.body table schema known = .ok batch

/-! ## The connection -/

/-- What has been replied of a stream: the schema, unless it could not be serialized, and the
chunks, with the batches that they were made of. -/
structure Stream (Batch : Type) where
  schema : Option Bytes
  chunks : List Bytes
  batches : List Batch
  deriving DecidableEq

/-- Another chunk. -/
def Stream.append (stream : Stream Batch) (bytes : Bytes) (batch : Batch) : Stream Batch :=
  { stream with chunks := stream.chunks ++ [bytes], batches := stream.batches ++ [batch] }

structure Connection (Schema Values Batch : Type) where
  /-- `current_query_result_ != nullptr` -/
  current_query_result : Bool
  current_schema_patched : Option Schema
  sent_dictionaries : List Int
  /-- The latest stream first. -/
  streams : List (Stream Batch)
  /-- The dictionaries of the batches in the latest stream. -/
  collected : List (Int × Values)
  lost : List Int

inductive Reply
  | null
  | retry
  | bytes (bytes : Bytes)
  | error (message : String)
  deriving DecidableEq, Repr

/-- What reading the result gives. -/
inductive Fetched (Batch : Type)
  | retry
  | error (message : String)
  | end
  | chunk (batch : Except String Batch)

/-- The loop over the dictionaries of a batch: the ids sent, and what is written. -/
def writeDictionaries (enc : Encoder Schema Values Batch) :
    List (Int × Values) → List Int → List Int × Except String Bytes
  | [], sent => (sent, .ok [])
  | (dict_id, dict_array) :: rest, sent =>
    if dict_id ∈ sent then writeDictionaries enc rest sent
    else
      match enc.GetDictionaryPayload dict_id dict_array with
      | .error e => (sent, .error e)
      | .ok payload =>
        match enc.WriteIpcPayload payload with
        | .error e => (sent, .error e)
        | .ok bytes =>
          let written := writeDictionaries enc rest (dict_id :: sent)
          (written.1, written.2.map (bytes ++ ·))

namespace Connection

variable (enc : Encoder Schema Values Batch) (c : Connection Schema Values Batch)

def initial : Connection Schema Values Batch where
  current_query_result := false
  current_schema_patched := none
  sent_dictionaries := []
  streams := []
  collected := []
  lost := []

def reset : Connection Schema Values Batch :=
  { c with current_query_result := false, current_schema_patched := none }

/-- A chunk of the latest stream. -/
def deliver (bytes : Bytes) (batch : Batch) : List (Stream Batch) → List (Stream Batch)
  | [] => []
  | stream :: past => stream.append bytes batch :: past

/-- `StreamQueryResult`, given the schema after the patch, or the error of the import. -/
def StreamQueryResult (patched : Except String Schema) : Connection Schema Values Batch × Reply :=
  let started := { c with
    current_query_result := true, current_schema_patched := none, sent_dictionaries := [],
    streams := { schema := none, chunks := [], batches := [] } :: c.streams,
    collected := [], lost := [] }
  match patched with
  | .error e => (started, .error e)
  | .ok schema =>
    let imported := { started with current_schema_patched := some schema }
    match enc.SerializeSchema schema with
    | .error e => (imported, .error e)
    | .ok bytes =>
      ({ imported with
          streams := { schema := some bytes, chunks := [], batches := [] } :: c.streams },
        .bytes bytes)

/-- What a chunk leaves that could not be serialized. -/
def fail (sent : List Int) : Connection Schema Values Batch :=
  { c with
    sent_dictionaries := sent
    lost := sent.filter (fun id => id ∉ c.sent_dictionaries) ++ c.lost }

/-- The part of `FetchQueryResults` that serializes a batch. -/
def serialize (schema : Schema) (batch : Batch) : Connection Schema Values Batch × Reply :=
  match enc.CollectDictionaries batch schema with
  | .error e => (c, .error e)
  | .ok dicts =>
    let written := writeDictionaries enc dicts c.sent_dictionaries
    match written.2 with
    | .error e => (c.fail written.1, .error e)
    | .ok out =>
      match enc.GetRecordBatchPayload batch with
      | .error e => (c.fail written.1, .error e)
      | .ok payload =>
        match enc.WriteIpcPayload payload with
        | .error e => (c.fail written.1, .error e)
        | .ok bytes =>
          ({ c with
              sent_dictionaries := written.1, collected := c.collected ++ dicts
              streams := deliver (out ++ bytes) batch c.streams },
            .bytes (out ++ bytes))

def FetchQueryResults (fetched : Fetched Batch) : Option (Connection Schema Values Batch × Reply) :=
  if c.current_query_result then
    match fetched with
    | .retry => some (c, .retry)
    | .error e => some (c, .error e)
    | .end => some (c.reset, .null)
    | .chunk batch =>
      match c.current_schema_patched with
      | none => none
      | some schema =>
        match batch with
        | .error e => some (c, .error e)
        | .ok batch => some (c.serialize enc schema batch)
  else some (c, .null)

end Connection

/-! ## Runs -/

inductive Event (Schema Batch : Type)
  /-- `MaterializeQueryResult` or `PendingQuery`. -/
  | reset
  | StreamQueryResult (patched : Except String Schema)
  | FetchQueryResults (fetched : Fetched Batch)

section Steps

variable (enc : Encoder Schema Values Batch)

def step (c : Connection Schema Values Batch) :
    Event Schema Batch → Option (Connection Schema Values Batch)
  | .reset => some c.reset
  | .StreamQueryResult patched => some (c.StreamQueryResult enc patched).1
  | .FetchQueryResults fetched => (c.FetchQueryResults enc fetched).map Prod.fst

/-- An id stands for the same values. -/
def Consistent (dicts : List (Int × Values)) : Prop :=
  ∀ d ∈ dicts, ∀ d' ∈ dicts, d.1 = d'.1 → d.2 = d'.2

/-- A batch has no dictionary that was lost, nor another one under an id of the stream. -/
def Steady (c : Connection Schema Values Batch) : Event Schema Batch → Prop
  | .FetchQueryResults (.chunk (.ok batch)) =>
    ∀ schema dicts, c.current_schema_patched = some schema →
      enc.CollectDictionaries batch schema = .ok dicts →
      (∀ d ∈ dicts, d.1 ∉ c.lost) ∧ Consistent (c.collected ++ dicts)
  | _ => True

end Steps

/-! ## Messages -/

section Read

variable {enc : Encoder Schema Values Batch} {dec : Decoder Table Schema Values Batch}

theorem length_padded_pos {metadata : Bytes} (h : metadata ≠ []) : 0 < (padded metadata).length := by
  have := List.length_pos_of_ne_nil h
  rw [padded, List.length_append]
  omega

/-- **A payload that is written stands encapsulated in front of its body.** -/
theorem Payload.IsMessage.encapsulated {payload : Payload} {type : MessageHeader} {table : Table}
    (h : payload.IsMessage dec type table) (rest : Bytes) :
    Encapsulated dec (encapsulated payload ++ rest)
      { header_type := type, header := some table, bodyLength := payload.body.length }
      (payload.body ++ rest) := by
  have hpos := length_padded_pos h.nonempty
  refine ⟨CONTINUATION_MARKER, toLeBytes (padded payload.metadata).length, padded payload.metadata,
    ?_, rfl, .inl rfl, ?_, ?_, h.root⟩
  · unfold SentDictionaries.encapsulated
    simp only [List.append_assoc]
  · rw [i32FromLeBytes_toLeBytes h.metadata_fits]
    omega
  · have hfits := h.metadata_fits
    rw [i32FromLeBytes_toLeBytes h.metadata_fits, asUsize_natCast (by omega)]

theorem Payload.IsMessage.framed {payload : Payload} {type : MessageHeader} {table : Table}
    (h : payload.IsMessage dec type table) (rest : Bytes) :
    Framed dec type (SentDictionaries.encapsulated payload ++ rest) table payload.body rest :=
  ⟨_, h.encapsulated rest, rfl, rfl, (asUsize_natCast h.body_fits).symm⟩

/-- The schema that is sent makes a reader of it. -/
theorem Agree.try_new (h : Agree enc dec) {schema : Schema} {bytes : Bytes}
    (hschema : enc.SerializeSchema schema = .ok bytes) :
    ArrowStreamReader.try_new dec bytes =
      .ok { schema, dictionaries_by_field := fun _ => none, finished := false } := by
  obtain ⟨payload, table, rfl, hmessage, rfl⟩ := h.schema hschema
  have hfront := front_message_iff.mpr (hmessage.encapsulated [])
  rw [List.append_nil] at hfront
  -- the reader takes the message apart as it does for a batch
  unfold front at hfront
  unfold ArrowStreamReader.try_new
  split at hfront
  next => cases hfront
  next meta_size reader hnext =>
    rw [hnext]
    split at hfront
    next => cases hfront
    next meta_len reader' hlength =>
      show (metaLength meta_size reader >>= _) = _
      rw [hlength]
      split at hfront
      next => cases hfront
      next =>
        split at hfront
        next => cases hfront
        next message rest hread =>
          obtain ⟨rfl, -⟩ := Front.message.inj hfront
          show (readMessage dec meta_len reader' >>= _) = _
          rw [hread]
          rfl

/-! ## A chunk is read -/

variable {batch : Batch} {schema : Schema} {dicts : List (Int × Values)}

theorem mem_writeDictionaries {id : Int} (todo : List (Int × Values)) {sent : List Int}
    (h : id ∈ sent) : id ∈ (writeDictionaries enc todo sent).1 := by
  induction todo generalizing sent with
  | nil => exact h
  | cons d todo ih =>
    unfold writeDictionaries
    split
    next => exact ih h
    next =>
      split
      next => exact h
      next =>
        split
        next => exact h
        next => exact ih (List.mem_cons_of_mem _ h)

/-- **What is written of the dictionaries, a reader that knows the ones sent before reads on the
way to the record batch**, and then it knows all of them. -/
theorem writeDictionaries_read (h : Agree enc dec)
    (hcollect : enc.CollectDictionaries batch schema = .ok dicts) (hconsistent : Consistent dicts)
    {before todo : List (Int × Values)} {sent sent' : List Int} {out : Bytes}
    {s : ArrowStreamReader Schema Values} (hsplit : dicts = before ++ todo)
    (hschema : s.schema = schema) (hbefore : Knows s.dictionaries_by_field before)
    (hsent : ∀ d ∈ dicts, d.1 ∈ sent → s.dictionaries_by_field d.1 = some d.2)
    (hwritten : writeDictionaries enc todo sent = (sent', .ok out)) :
    ∃ known, (∀ tail batch s', ArrowStreamReader.Holds dec
          { s with dictionaries_by_field := known } tail batch s' →
        ArrowStreamReader.Holds dec s (out ++ tail) batch s') ∧
      Knows known dicts ∧
      (∀ id, id ∈ sent ∨ id ∉ sent' → known id = s.dictionaries_by_field id) ∧
      ∀ id ∈ sent', id ∈ sent ∨ ∃ d ∈ dicts, d.1 = id := by
  induction todo generalizing before sent out s with
  | nil =>
    obtain ⟨rfl, hout⟩ := Prod.mk.inj hwritten
    obtain rfl := Except.ok.inj hout
    rw [List.append_nil] at hsplit
    subst hsplit
    exact ⟨s.dictionaries_by_field, fun _ _ _ hholds => hholds, hbefore, fun _ _ => rfl,
      fun id hid => .inl hid⟩
  | cons d todo ih =>
    obtain ⟨id, values⟩ := d
    have hmem : (id, values) ∈ dicts := by simp [hsplit]
    have hsplit' : dicts = (before ++ [(id, values)]) ++ todo := by simp [hsplit]
    unfold writeDictionaries at hwritten
    split at hwritten
    next hin =>
      refine ih hsplit' hschema ?_ hsent hwritten
      intro d hd
      rcases List.mem_append.mp hd with hd | hd
      · exact hbefore d hd
      · obtain rfl := List.mem_singleton.mp hd
        exact hsent _ hmem hin
    next hnew =>
      split at hwritten
      next => cases (Prod.mk.inj hwritten).2
      next payload hpayload =>
        split at hwritten
        next => cases (Prod.mk.inj hwritten).2
        next bytes hbytes =>
          dsimp only at hwritten
          obtain ⟨hids, hout⟩ := Prod.mk.inj hwritten
          obtain ⟨out', hrest⟩ : ∃ out', (writeDictionaries enc todo (id :: sent)).2 = .ok out' := by
            rcases hw : (writeDictionaries enc todo (id :: sent)).2 with e | out'
            · rw [hw] at hout
              cases hout
            · exact ⟨out', rfl⟩
          rw [hrest] at hout
          obtain rfl := Except.ok.inj hout
          obtain rfl := h.written hbytes
          subst hsplit
          obtain ⟨table, hmessage, hread⟩ := h.dictionary hcollect hpayload
          -- the reader behind this dictionary
          have hknows : ∀ d ∈ before ++ (id, values) :: todo, d.1 ∈ id :: sent →
              Function.update s.dictionaries_by_field id (some values) d.1 = some d.2 := by
            intro d hd hin
            by_cases hid : d.1 = id
            · rw [hid, Function.update_self, hconsistent d hd (id, values) hmem hid]
            · rw [Function.update_of_ne hid]
              exact hsent d hd ((List.mem_cons.mp hin).resolve_left hid)
          obtain ⟨known, hholds, hall, hkeeps, hids'⟩ := ih
            (s := { s with
              dictionaries_by_field := Function.update s.dictionaries_by_field id (some values) })
            hsplit' hschema (by
              intro d hd
              have hd' : d ∈ before ++ (id, values) :: todo := hsplit' ▸ List.mem_append_left todo hd
              by_cases hid : d.1 = id
              · exact hknows d hd' (hid ▸ List.mem_cons_self)
              · show Function.update s.dictionaries_by_field id (some values) d.1 = some d.2
                rw [Function.update_of_ne hid]
                refine hbefore d ((List.mem_append.mp hd).resolve_right fun hlast => ?_)
                exact hid (List.mem_singleton.mp hlast ▸ rfl))
            hknows (Prod.ext hids hrest)
          refine ⟨known, ?_, hall, ?_, ?_⟩
          · intro tail batch s' hheld
            rw [List.append_assoc]
            refine .dictionary (hmessage.framed (out' ++ tail)) ?_ (hholds tail batch s' hheld)
            rw [hschema]
            exact hread _ hbefore
          · intro id' hid'
            have hne : id' ≠ id := by
              rintro rfl
              rcases hid' with hin | hout
              · exact hnew hin
              · exact hout (hids ▸ mem_writeDictionaries todo List.mem_cons_self)
            rw [hkeeps id' (hid'.imp_left (List.mem_cons_of_mem _))]
            exact Function.update_of_ne hne _ _
          · intro id' hid'
            rcases hids' id' hid' with hin | hin
            · rcases List.mem_cons.mp hin with rfl | hin
              · exact .inr ⟨_, hmem, rfl⟩
              · exact .inl hin
            · exact .inr hin

/-- **A chunk that is sent is read as its batch.** -/
theorem serialize_read (h : Agree enc dec) {c : Connection Schema Values Batch}
    {s : ArrowStreamReader Schema Values} {bytes : Bytes} {out : Bytes} {payload : Payload}
    {sent : List Int} (hcollect : enc.CollectDictionaries batch schema = .ok dicts)
    (hconsistent : Consistent dicts) (hschema : s.schema = schema) (hfinished : s.finished = false)
    (hsent : ∀ d ∈ dicts, d.1 ∈ c.sent_dictionaries → s.dictionaries_by_field d.1 = some d.2)
    (hwritten : writeDictionaries enc dicts c.sent_dictionaries = (sent, .ok out))
    (hpayload : enc.GetRecordBatchPayload batch = .ok payload)
    (hbytes : enc.WriteIpcPayload payload = .ok bytes) :
    ∃ known, ArrowStreamReader.maybe_next dec s (out ++ bytes) =
        (.ok (some batch), { s with dictionaries_by_field := known }) ∧ Knows known dicts ∧
      (∀ id, id ∈ c.sent_dictionaries ∨ id ∉ sent → known id = s.dictionaries_by_field id) ∧
      ∀ id ∈ sent, id ∈ c.sent_dictionaries ∨ ∃ d ∈ dicts, d.1 = id := by
  obtain ⟨known, hholds, hall, hkeeps, hids⟩ := writeDictionaries_read h hcollect hconsistent
    (List.nil_append dicts).symm hschema (fun _ hd => absurd hd List.not_mem_nil) hsent hwritten
  refine ⟨known, ?_, hall, hkeeps, hids⟩
  obtain rfl := h.written hbytes
  obtain ⟨table, hmessage, hread⟩ := h.recordBatch hcollect hpayload
  have hframed := hmessage.framed []
  rw [List.append_nil] at hframed
  refine (hholds _ _ _ (.batch hframed ?_)).maybe_next hfinished
  rw [hschema]
  exact hread known hall

end Read

/-! ## A stream is read -/

/-- A reader that is given one buffer after another. -/
def readAll (dec : Decoder Table Schema Values Batch) (s : ArrowStreamReader Schema Values) :
    List Bytes → List (Except String (Option Batch)) × ArrowStreamReader Schema Values
  | [] => ([], s)
  | buffer :: buffers =>
    let read := ArrowStreamReader.maybe_next dec s buffer
    let rest := readAll dec read.2 buffers
    (read.1 :: rest.1, rest.2)

theorem readAll_append (dec : Decoder Table Schema Values Batch)
    (s : ArrowStreamReader Schema Values) (buffers : List Bytes) (buffer : Bytes) :
    readAll dec s (buffers ++ [buffer]) =
      ((readAll dec s buffers).1 ++
          [(ArrowStreamReader.maybe_next dec (readAll dec s buffers).2 buffer).1],
        (ArrowStreamReader.maybe_next dec (readAll dec s buffers).2 buffer).2) := by
  induction buffers generalizing s with
  | nil => rfl
  | cons first buffers ih =>
    rw [List.cons_append, readAll, ih]
    rfl

/-- A reader of the schema reads the batches from the chunks, and is then at `s'`. -/
def Stream.ReadsTo (stream : Stream Batch) (dec : Decoder Table Schema Values Batch)
    (s' : ArrowStreamReader Schema Values) : Prop :=
  ∀ bytes, stream.schema = some bytes → ∃ s, ArrowStreamReader.try_new dec bytes = .ok s ∧
    readAll dec s stream.chunks = (stream.batches.map fun batch => .ok (some batch), s')

/-- The reader of the latest stream has its schema, and every dictionary that was sent and not
lost. -/
structure Follows (c : Connection Schema Values Batch) (s : ArrowStreamReader Schema Values)
    (schema : Schema) : Prop where
  schema : s.schema = schema
  finished : s.finished = false
  known : ∀ id ∈ c.sent_dictionaries, id ∉ c.lost →
    ∃ values, (id, values) ∈ c.collected ∧ s.dictionaries_by_field id = some values
  unknown : ∀ id, id ∉ c.sent_dictionaries ∨ id ∈ c.lost → s.dictionaries_by_field id = none
  lost : ∀ id ∈ c.lost, id ∈ c.sent_dictionaries

section Run

variable {enc : Encoder Schema Values Batch} {dec : Decoder Table Schema Values Batch}
  {c c' : Connection Schema Values Batch}

/-- What holds of a connection in a run. -/
structure Inv (dec : Decoder Table Schema Values Batch) (c : Connection Schema Values Batch) :
    Prop where
  past : ∀ stream ∈ c.streams, stream.schema ≠ none → ∃ s, stream.ReadsTo dec s
  present : ∀ schema, c.current_schema_patched = some schema → ∃ stream past s,
    c.streams = stream :: past ∧ stream.ReadsTo dec s ∧ Follows c s schema

theorem Inv.initial : Inv dec (Connection.initial : Connection Schema Values Batch) :=
  ⟨fun _ h => absurd h List.not_mem_nil, fun _ h => absurd h (Option.some_ne_none _).symm⟩

/-- Without a schema there is nothing to say about the latest stream. -/
theorem Inv.reset (h : Inv dec c) : Inv dec c.reset :=
  ⟨h.past, fun _ hschema => absurd hschema (Option.some_ne_none _).symm⟩

/-- **`StreamQueryResult` starts a stream that a new reader follows.** -/
theorem Inv.streamQueryResult (h : Inv dec c) (hagree : Agree enc dec)
    (patched : Except String Schema) : Inv dec (c.StreamQueryResult enc patched).1 := by
  have hpast : ∀ stream : Stream Batch, (stream.schema ≠ none → ∃ s, stream.ReadsTo dec s) →
      ∀ stream' ∈ stream :: c.streams, stream'.schema ≠ none → ∃ s, stream'.ReadsTo dec s := by
    intro stream hstream stream' hmem
    rcases List.mem_cons.mp hmem with rfl | hmem
    · exact hstream
    · exact h.past stream' hmem
  unfold Connection.StreamQueryResult
  cases patched with
  | error e =>
    refine ⟨hpast _ fun hnone => absurd rfl hnone, fun schema hschema => ?_⟩
    exact absurd hschema (Option.some_ne_none _).symm
  | ok schema =>
    -- the reader of this schema, whether or not it has been sent
    have hfollows : ∀ started : Connection Schema Values Batch, started.sent_dictionaries = [] →
        started.lost = [] →
        Follows started { schema, dictionaries_by_field := fun _ => none, finished := false }
          schema := by
      intro started hsent hlost
      refine ⟨rfl, rfl, fun id hid => ?_, fun _ _ => rfl, fun id hid => ?_⟩
      · rw [hsent] at hid
        exact absurd hid List.not_mem_nil
      · rw [hlost] at hid
        exact absurd hid List.not_mem_nil
    dsimp only
    split
    next =>
      refine ⟨hpast _ fun hnone => absurd rfl hnone, fun schema' hschema => ?_⟩
      obtain rfl := Option.some.inj hschema
      refine ⟨_, _, _, rfl, fun bytes hbytes => ?_, hfollows _ rfl rfl⟩
      exact absurd hbytes (Option.some_ne_none _).symm
    next bytes hbytes =>
      have hreads : ({ schema := some bytes, chunks := [], batches := [] } : Stream Batch).ReadsTo
          dec { schema, dictionaries_by_field := fun _ => none, finished := false } := by
        intro bytes' hbytes'
        obtain rfl := Option.some.inj hbytes'
        exact ⟨_, hagree.try_new hbytes, rfl⟩
      refine ⟨hpast _ fun _ => ⟨_, hreads⟩, fun schema' hschema => ?_⟩
      obtain rfl := Option.some.inj hschema
      exact ⟨_, _, _, rfl, hreads, hfollows _ rfl rfl⟩

/-- A chunk that fails leaves the reader where it is: it lacks what has been lost. -/
theorem Inv.fail (h : Inv dec c) {sent : List Int}
    (hsent : ∀ id ∈ c.sent_dictionaries, id ∈ sent) : Inv dec (c.fail sent) := by
  refine ⟨h.past, fun schema hschema => ?_⟩
  obtain ⟨stream, past, s, hstreams, hreads, hfollows⟩ := h.present schema hschema
  refine ⟨stream, past, s, hstreams, hreads, hfollows.schema, hfollows.finished, ?_, ?_, ?_⟩
  · intro id hid hlost
    have hlost' := fun hin => hlost (List.mem_append_right _ hin)
    refine hfollows.known id (by_contra fun hnew => ?_) hlost'
    exact hlost (List.mem_append_left _ (List.mem_filter.mpr ⟨hid, decide_eq_true hnew⟩))
  · rintro id (hid | hid)
    · exact hfollows.unknown id (.inl fun hin => hid (hsent id hin))
    · rcases List.mem_append.mp hid with hnew | hold
      · exact hfollows.unknown id (.inl (of_decide_eq_true (List.mem_filter.mp hnew).2))
      · exact hfollows.unknown id (.inr hold)
  · intro id hid
    rcases List.mem_append.mp hid with hnew | hold
    · exact (List.mem_filter.mp hnew).1
    · exact hsent id (hfollows.lost id hold)

/-- **Serializing a batch keeps the reader behind the chunks.** -/
theorem Inv.serialize (h : Inv dec c) (hagree : Agree enc dec) {schema : Schema} {batch : Batch}
    (hschema : c.current_schema_patched = some schema)
    (hsteady : ∀ dicts, enc.CollectDictionaries batch schema = .ok dicts →
      (∀ d ∈ dicts, d.1 ∉ c.lost) ∧ Consistent (c.collected ++ dicts)) :
    Inv dec (c.serialize enc schema batch).1 := by
  unfold Connection.serialize
  split
  next => exact h
  next dicts hcollect =>
    dsimp only
    split
    next => exact h.fail fun _ => mem_writeDictionaries dicts
    next out hout =>
      split
      next => exact h.fail fun _ => mem_writeDictionaries dicts
      next payload hpayload =>
        split
        next => exact h.fail fun _ => mem_writeDictionaries dicts
        next bytes hbytes =>
          obtain ⟨hlost, hconsistent⟩ := hsteady dicts hcollect
          obtain ⟨stream, past, s, hstreams, hreads, hfollows⟩ := h.present schema hschema
          have hright : ∀ d ∈ dicts, d ∈ c.collected ++ dicts :=
            fun d hd => List.mem_append_right _ hd
          -- a dictionary that was sent before had the same values
          have hsent : ∀ d ∈ dicts, d.1 ∈ c.sent_dictionaries →
              s.dictionaries_by_field d.1 = some d.2 := by
            intro d hd hin
            obtain ⟨values, hcollected, hknown⟩ := hfollows.known d.1 hin (hlost d hd)
            have hsame : values = d.2 :=
              hconsistent _ (List.mem_append_left _ hcollected) d (hright d hd) rfl
            rw [hknown, hsame]
          obtain ⟨known, hread, hall, hkeeps, hids⟩ := serialize_read hagree hcollect
            (fun d hd d' hd' => hconsistent d (hright d hd) d' (hright d' hd')) hfollows.schema
            hfollows.finished hsent (Prod.ext rfl hout) hpayload hbytes
          have hreads' : (stream.append (out ++ bytes) batch).ReadsTo dec
              { s with dictionaries_by_field := known } := by
            intro first hfirst
            obtain ⟨s₀, hnew, hall'⟩ := hreads first hfirst
            refine ⟨s₀, hnew, ?_⟩
            unfold Stream.append
            rw [readAll_append, hall', hread, List.map_append]
            rfl
          have hdeliver : Connection.deliver (out ++ bytes) batch c.streams =
              stream.append (out ++ bytes) batch :: past := by
            rw [hstreams]
            rfl
          refine ⟨?_, fun schema' hschema' => ⟨_, past, _, hdeliver, hreads', ?_⟩⟩
          · show ∀ stream ∈ Connection.deliver (out ++ bytes) batch c.streams, _
            rw [hdeliver]
            intro stream' hmem hsome
            rcases List.mem_cons.mp hmem with rfl | hmem
            · exact ⟨_, hreads'⟩
            · exact h.past stream' (hstreams ▸ List.mem_cons_of_mem _ hmem) hsome
          · obtain rfl := Option.some.inj (hschema.symm.trans hschema')
            refine ⟨hfollows.schema, hfollows.finished, fun id hid hfound => ?_,
              fun id hid => ?_, fun id hid => mem_writeDictionaries dicts (hfollows.lost id hid)⟩
            · rcases hids id hid with hin | ⟨d, hd, rfl⟩
              · obtain ⟨values, hcollected, hknown⟩ := hfollows.known id hin hfound
                exact ⟨values, List.mem_append_left _ hcollected,
                  (hkeeps id (.inl hin)).trans hknown⟩
              · exact ⟨d.2, hright d hd, hall d hd⟩
            · rcases hid with hout | hgone
              · have hnew : id ∉ c.sent_dictionaries :=
                  fun hin => hout (mem_writeDictionaries dicts hin)
                exact (hkeeps id (.inr hout)).trans (hfollows.unknown id (.inl hnew))
              · exact (hkeeps id (.inl (hfollows.lost id hgone))).trans
                  (hfollows.unknown id (.inr hgone))

theorem Inv.step (h : Inv dec c) (hagree : Agree enc dec) {e : Event Schema Batch}
    (hsteady : Steady enc c e) (hs : step enc c e = some c') : Inv dec c' := by
  cases e with
  | reset =>
    obtain rfl := Option.some.inj hs
    exact h.reset
  | StreamQueryResult patched =>
    obtain rfl := Option.some.inj hs
    exact h.streamQueryResult hagree patched
  | FetchQueryResults fetched =>
    obtain ⟨⟨c₁, reply⟩, hfetch, rfl⟩ := Option.map_eq_some_iff.mp hs
    unfold Connection.FetchQueryResults at hfetch
    split at hfetch
    next =>
      cases fetched with
      | retry =>
        obtain ⟨rfl, -⟩ := Prod.mk.inj (Option.some.inj hfetch)
        exact h
      | error e =>
        obtain ⟨rfl, -⟩ := Prod.mk.inj (Option.some.inj hfetch)
        exact h
      | «end» =>
        obtain ⟨rfl, -⟩ := Prod.mk.inj (Option.some.inj hfetch)
        exact h.reset
      | chunk batch =>
        dsimp only at hfetch
        split at hfetch
        next => cases hfetch
        next schema hschema =>
          cases batch with
          | error e =>
            obtain ⟨rfl, -⟩ := Prod.mk.inj (Option.some.inj hfetch)
            exact h
          | ok batch =>
            have heq := Option.some.inj hfetch
            have hserialized := h.serialize hagree hschema fun dicts hcollect =>
              hsteady schema dicts hschema hcollect
            rw [heq] at hserialized
            exact hserialized
    next =>
      obtain ⟨rfl, -⟩ := Prod.mk.inj (Option.some.inj hfetch)
      exact h

end Run

/-- **A stream is read back.** In every run in which an id keeps its values and no chunk needs a
lost dictionary, a reader of a stream's schema that is given the chunks of the stream returns the
batches that these were made of, one for each. While the stream goes on, the reader has every
dictionary that has been sent, but for the lost ones. -/
theorem stream_read_back {enc : Encoder Schema Values Batch}
    {dec : Decoder Table Schema Values Batch} (hagree : Agree enc dec)
    {es : List (Event Schema Batch)} {c : Connection Schema Values Batch}
    (h : Run (step enc) (Steady enc) .initial es c) :
    (∀ stream ∈ c.streams, ∀ bytes, stream.schema = some bytes →
      ∃ s s', ArrowStreamReader.try_new dec bytes = .ok s ∧
        readAll dec s stream.chunks = (stream.batches.map fun batch => .ok (some batch), s')) ∧
    ∀ schema, c.current_schema_patched = some schema → ∀ bytes stream past,
      c.streams = stream :: past → stream.schema = some bytes →
      ∃ s, ArrowStreamReader.try_new dec bytes = .ok s ∧ ∀ id,
        ((readAll dec s stream.chunks).2.dictionaries_by_field id).isSome ↔
          id ∈ c.sent_dictionaries ∧ id ∉ c.lost := by
  have hinv : Inv dec c :=
    h.invariant .initial fun c e c' hc hsteady hs => hc.step hagree hsteady hs
  refine ⟨fun stream hstream bytes hbytes => ?_, fun schema hschema bytes stream past hstreams
    hbytes => ?_⟩
  · have hsome : stream.schema ≠ none := by
      rw [hbytes]
      exact Option.some_ne_none bytes
    obtain ⟨s', hreads⟩ := hinv.past stream hstream hsome
    obtain ⟨s, hnew, hall⟩ := hreads bytes hbytes
    exact ⟨s, s', hnew, hall⟩
  · obtain ⟨stream', past', s', hstreams', hreads, hfollows⟩ := hinv.present schema hschema
    obtain ⟨rfl, -⟩ := List.cons.inj (hstreams.symm.trans hstreams')
    obtain ⟨s, hnew, hall⟩ := hreads bytes hbytes
    refine ⟨s, hnew, fun id => ?_⟩
    rw [hall]
    constructor
    · intro hknown
      by_contra hnot
      have hor : id ∉ c.sent_dictionaries ∨ id ∈ c.lost := by
        by_cases hin : id ∈ c.sent_dictionaries
        · exact .inr (by_contra fun hlost => hnot ⟨hin, hlost⟩)
        · exact .inl hin
      rw [hfollows.unknown id hor] at hknown
      cases hknown
    · rintro ⟨hin, hlost⟩
      obtain ⟨values, -, hvalues⟩ := hfollows.known id hin hlost
      rw [hvalues]
      rfl

/-! ## The iterator over the result -/

/-- The buffers among the answers of `next()`. -/
def buffers (answers : List IteratorResult) : List Bytes :=
  answers.filterMap fun
    | .result false value => value
    | _ => none

theorem buffers_given (bs : List Bytes) : buffers (bs.map given) = bs := by
  induction bs with
  | nil => rfl
  | cons b bs ih => exact congrArg (b :: ·) ih

/-- What an iterator has returned are the first buffers, and all of them once it has ended. -/
theorem buffers_delivered {header : Bytes} {items : List Worker.ResultStream.Fetched} {n : Nat}
    {returned : List IteratorResult} (h : returned <+: delivery header items n) :
    buffers returned <+: header :: chunks items ∧
      (.result true (some []) ∈ returned → buffers returned = header :: chunks items) := by
  obtain ⟨rest, hrest⟩ := h
  rcases List.append_eq_append_iff.mp hrest with ⟨more, hmore, -⟩ | ⟨ended, rfl, hended⟩
  · have hsplit := congrArg buffers hmore
    rw [buffers_given, buffers, List.filterMap_append] at hsplit
    refine ⟨⟨_, hsplit.symm⟩, fun hend => ?_⟩
    obtain ⟨b, -, hb⟩ := List.mem_map.mp (hmore ▸ List.mem_append_left more hend)
    cases hb
  · -- nothing behind the end is a buffer
    have hnone : buffers ended = [] := by
      refine List.filterMap_eq_nil_iff.mpr fun r hr => ?_
      rcases List.mem_cons.mp (hended ▸ List.mem_append_left rest hr) with rfl | hr
      · rfl
      · rw [List.eq_of_mem_replicate hr]
    have hall : buffers ((header :: chunks items).map given ++ ended) = header :: chunks items := by
      rw [buffers, List.filterMap_append]
      exact (congrArg₂ _ (buffers_given _) hnone).trans (List.append_nil _)
    exact ⟨by rw [hall], fun _ => hall⟩

theorem readAll_take (dec : Decoder Table Schema Values Batch) (n : Nat)
    (s : ArrowStreamReader Schema Values) (bs : List Bytes) :
    (readAll dec s (bs.take n)).1 = (readAll dec s bs).1.take n := by
  induction bs generalizing s n with
  | nil => rw [List.take_nil, readAll, List.take_nil]
  | cons b bs ih =>
    cases n with
    | zero => rfl
    | succ n => exact congrArg (_ :: ·) (ih n _)

/-- **From the connection to the reader.** The answers of the connection for a stream, with any
retries between its chunks, go to the iterator; whatever the order of its calls and answers, a
reader of the first buffer that it returns gets the fetched batches from the others, and all of
them when the iterator has ended. -/
theorem iterated_read_back {enc : Encoder Schema Values Batch}
    {dec : Decoder Table Schema Values Batch} (hagree : Agree enc dec)
    {es : List (Event Schema Batch)} {c : Connection Schema Values Batch}
    (h : Run (step enc) (Steady enc) .initial es c) {stream : Stream Batch}
    (hstream : stream ∈ c.streams) {header : Bytes} (hheader : stream.schema = some header)
    {items : List Worker.ResultStream.Fetched} (hitems : ∀ r ∈ items, r.Goes)
    (hchunks : chunks items = stream.chunks) {es' : List Worker.ResultStream.Event}
    {s : AsyncResultStreamIterator}
    (h' : Run (Worker.ResultStream.step (items ++ [.chunk []])) Always (.initial header) es' s) :
    buffers s.returned <+: header :: stream.chunks ∧
    (.result true (some []) ∈ s.returned → buffers s.returned = header :: stream.chunks) ∧
    ∃ reader, ArrowStreamReader.try_new dec header = .ok reader ∧
      (readAll dec reader (buffers s.returned).tail).1 =
        (stream.batches.take (buffers s.returned).tail.length).map fun batch => .ok (some batch) := by
  have hinv : Inv dec c := h.invariant .initial fun c e c' hc hsteady hs => hc.step hagree hsteady hs
  have hiterator : Worker.ResultStream.Inv header items s :=
    h'.invariant Worker.ResultStream.initial_inv
      fun _ _ _ hi _ hs => Worker.ResultStream.inv_step hitems hi hs
  obtain ⟨hfront, hended⟩ := buffers_delivered hiterator.returned_prefix
  rw [hchunks] at hfront hended
  obtain ⟨s', hreads⟩ := hinv.past stream hstream (hheader ▸ Option.some_ne_none header)
  obtain ⟨reader, hnew, hall⟩ := hreads header hheader
  have htail : (buffers s.returned).tail = stream.chunks.take (buffers s.returned).tail.length := by
    rw [← List.drop_one]
    exact List.prefix_iff_eq_take.mp (hfront.drop 1)
  refine ⟨hfront, hended, reader, hnew, ?_⟩
  rw [htail, readAll_take, hall, ← htail, List.map_take]

/-! ## A column of an enumeration

The messages of a column `k` of the values `a` and `b`, indexed with 8 bits. -/

section Example

def schemaMetadata : Bytes :=
    [16, 0, 0, 0, 0, 0, 10, 0, 12, 0, 6, 0, 5, 0, 8, 0, 10, 0, 0, 0, 0, 1, 4, 0, 12, 0, 0, 0, 8,
     0, 8, 0, 0, 0, 4, 0, 8, 0, 0, 0, 4, 0, 0, 0, 1, 0, 0, 0, 20, 0, 0, 0, 16, 0, 24, 0, 20, 0, 7,
     0, 6, 0, 16, 0, 12, 0, 8, 0, 16, 0, 0, 0, 0, 0, 5, 1, 16, 0, 0, 0, 24, 0, 0, 0, 48, 0, 0, 0,
     48, 0, 0, 0, 0, 0, 0, 0, 8, 0, 10, 0, 0, 0, 4, 0, 8, 0, 0, 0, 12, 0, 0, 0, 0, 0, 6, 0, 8, 0,
     4, 0, 6, 0, 0, 0, 8, 0, 0, 0, 4, 0, 4, 0, 4, 0, 0, 0, 1, 0, 0, 0, 107, 0, 0, 0]

def dictionaryMetadata : Bytes :=
    [20, 0, 0, 0, 0, 0, 0, 0, 12, 0, 20, 0, 6, 0, 5, 0, 8, 0, 12, 0, 12, 0, 0, 0, 0, 2, 4, 0, 20,
     0, 0, 0, 24, 0, 0, 0, 0, 0, 0, 0, 8, 0, 10, 0, 0, 0, 4, 0, 8, 0, 0, 0, 16, 0, 0, 0, 0, 0, 10,
     0, 24, 0, 12, 0, 8, 0, 4, 0, 10, 0, 0, 0, 44, 0, 0, 0, 16, 0, 0, 0, 2, 0, 0, 0, 0, 0, 0, 0,
     0, 0, 0, 0, 1, 0, 0, 0, 2, 0, 0, 0, 0, 0, 0, 0, 0, 0, 0, 0, 0, 0, 0, 0, 0, 0, 0, 0, 3, 0, 0,
     0, 0, 0, 0, 0, 0, 0, 0, 0, 0, 0, 0, 0, 0, 0, 0, 0, 0, 0, 0, 0, 0, 0, 0, 0, 12, 0, 0, 0, 0, 0,
     0, 0, 16, 0, 0, 0, 0, 0, 0, 0, 2, 0, 0, 0, 0, 0, 0, 0]

/-- Of a batch of three rows. -/
def batchMetadata : Bytes :=
    [20, 0, 0, 0, 0, 0, 0, 0, 12, 0, 22, 0, 6, 0, 5, 0, 8, 0, 12, 0, 12, 0, 0, 0, 0, 3, 4, 0, 24,
     0, 0, 0, 8, 0, 0, 0, 0, 0, 0, 0, 0, 0, 10, 0, 24, 0, 12, 0, 8, 0, 4, 0, 10, 0, 0, 0, 44, 0,
     0, 0, 16, 0, 0, 0, 3, 0, 0, 0, 0, 0, 0, 0, 0, 0, 0, 0, 1, 0, 0, 0, 3, 0, 0, 0, 0, 0, 0, 0, 0,
     0, 0, 0, 0, 0, 0, 0, 0, 0, 0, 0, 2, 0, 0, 0, 0, 0, 0, 0, 0, 0, 0, 0, 0, 0, 0, 0, 0, 0, 0, 0,
     0, 0, 0, 0, 0, 0, 0, 0, 3, 0, 0, 0, 0, 0, 0, 0]

/-- Three offsets, padded, and the characters. -/
def dictionaryBody : Bytes :=
  [0, 0, 0, 0, 1, 0, 0, 0, 2, 0, 0, 0, 0, 0, 0, 0, 97, 98, 0, 0, 0, 0, 0, 0]

def columnEncoder : Encoder String (List String) (List String) where
  SerializeSchema schema :=
    if schema = "k" then .ok (encapsulated ⟨schemaMetadata, []⟩) else .error "another schema"
  CollectDictionaries _ _ := .ok [(0, ["a", "b"])]
  GetDictionaryPayload id values :=
    if id = 0 ∧ values = ["a", "b"] then .ok ⟨dictionaryMetadata, dictionaryBody⟩
    else .error "another dictionary"
  GetRecordBatchPayload batch :=
    if batch = ["a", "b", "a"] then .ok ⟨batchMetadata, [0, 1, 0, 0, 0, 0, 0, 0]⟩
    else .error "another batch"
  WriteIpcPayload payload := .ok (encapsulated payload)

def columnDecoder : Decoder MessageHeader String (List String) (List String) where
  root_as_message bytes :=
    if bytes = schemaMetadata then .ok ⟨.Schema, some .Schema, 0⟩
    else if bytes = dictionaryMetadata then .ok ⟨.DictionaryBatch, some .DictionaryBatch, 24⟩
    else if bytes = batchMetadata then .ok ⟨.RecordBatch, some .RecordBatch, 8⟩
    else .error "another message"
  fb_to_schema _ := "k"
  read_dictionary body _ _ known :=
    if body = dictionaryBody then .ok (Function.update known 0 (some ["a", "b"]))
    else .error "another body"
  read_record_batch body _ _ known :=
    match known 0 with
    | none => .error "Cannot find a dictionary batch with dict id: 0"
    | some values => .ok ((body.take 3).map fun index => values.getD index.toNat "")

theorem columnAgree : Agree columnEncoder columnDecoder where
  written h := (Except.ok.inj h).symm
  schema h := by
    unfold columnEncoder at h
    dsimp only at h
    split at h
    next hschema =>
      obtain rfl := Except.ok.inj h
      exact ⟨_, .Schema, rfl, ⟨by decide, by decide +kernel, by decide, by decide +kernel⟩, hschema.symm⟩
    next => cases h
  dictionary := by
    intro batch schema before after id values payload _ hpayload
    unfold columnEncoder at hpayload
    dsimp only at hpayload
    split at hpayload
    next hid =>
      obtain ⟨rfl, rfl⟩ := hid
      obtain rfl := Except.ok.inj hpayload
      refine ⟨.DictionaryBatch, ⟨by decide, by decide +kernel, by decide, by decide +kernel⟩,
        fun known _ => ?_⟩
      unfold columnDecoder
      dsimp only
      exact if_pos rfl
    next => cases hpayload
  recordBatch := by
    intro batch schema dicts payload hcollect hpayload
    obtain rfl := Except.ok.inj hcollect
    have hread : ∀ known, Knows known [(0, ["a", "b"])] → ∀ body,
        columnDecoder.read_record_batch body .RecordBatch schema known =
          .ok ((body.take 3).map fun index => ["a", "b"].getD index.toNat "") := by
      intro known hknown body
      unfold columnDecoder
      dsimp only
      rw [hknown (0, ["a", "b"]) List.mem_cons_self]
    unfold columnEncoder at hpayload
    dsimp only at hpayload
    split at hpayload
    next hbatch =>
      obtain rfl := Except.ok.inj hpayload
      exact ⟨.RecordBatch, ⟨by decide, by decide +kernel, by decide, by decide +kernel⟩,
        fun known hknown => (hread known hknown _).trans (congrArg _ hbatch.symm)⟩
    next => cases hpayload

/-- The result is fetched in two chunks, and then again from the beginning. -/
def columnRun : List (Event String (List String)) :=
  [.StreamQueryResult (.ok "k"), .FetchQueryResults .retry,
    .FetchQueryResults (.chunk (.ok ["a", "b", "a"])),
    .FetchQueryResults (.chunk (.ok ["a", "b", "a"])), .FetchQueryResults .end,
    .StreamQueryResult (.ok "k"), .FetchQueryResults (.chunk (.ok ["a", "b", "a"]))]

/-- Nothing has been lost, and there is only one dictionary. -/
def Plain (c : Connection String (List String) (List String))
    (_ : Event String (List String)) : Prop :=
  c.lost = [] ∧ ∀ d ∈ c.collected, d = (0, ["a", "b"])

instance (c : Connection String (List String) (List String)) (e : Event String (List String)) :
    Decidable (Plain c e) := by unfold Plain; infer_instance

theorem Plain.steady {c : Connection String (List String) (List String)}
    {e : Event String (List String)} (h : Plain c e) : Steady columnEncoder c e := by
  obtain ⟨hlost, hcollected⟩ := h
  unfold Steady
  split
  next =>
    rintro schema dicts - hdicts
    obtain rfl := Except.ok.inj hdicts
    have hall : ∀ d ∈ c.collected ++ [(0, ["a", "b"])], d = (0, ["a", "b"]) := by
      intro d hd
      rcases List.mem_append.mp hd with hd | hd
      · exact hcollected d hd
      · exact List.mem_singleton.mp hd
    refine ⟨fun d _ => ?_, fun d hd d' hd' _ => ?_⟩
    · rw [hlost]
      exact List.not_mem_nil
    · rw [hall d hd, hall d' hd']
  next => trivial

/-- The dictionary stands in the first chunk only. -/
def columnStream : Stream (List String) where
  schema := some (encapsulated ⟨schemaMetadata, []⟩)
  chunks := [encapsulated ⟨dictionaryMetadata, dictionaryBody⟩ ++
      encapsulated ⟨batchMetadata, [0, 1, 0, 0, 0, 0, 0, 0]⟩,
    encapsulated ⟨batchMetadata, [0, 1, 0, 0, 0, 0, 0, 0]⟩]
  batches := [["a", "b", "a"], ["a", "b", "a"]]

theorem columnRun_streams : ∃ c, Run (step columnEncoder) (Steady columnEncoder) .initial columnRun c
    ∧ columnStream ∈ c.streams := by
  obtain ⟨c, hrun, hstreams⟩ := Run.exists_of_execute
    (show (execute (step columnEncoder) Plain .initial columnRun).map (fun c =>
      decide (c.streams[1]? = some columnStream)) = some true by decide +kernel)
  exact ⟨c, hrun.mono fun _ _ h => h.steady, List.mem_of_getElem? (of_decide_eq_true hstreams)⟩

theorem stream_read_back_of_column :
    ∃ s s', ArrowStreamReader.try_new columnDecoder (encapsulated ⟨schemaMetadata, []⟩) = .ok s ∧
      readAll columnDecoder s columnStream.chunks =
        ([.ok (some ["a", "b", "a"]), .ok (some ["a", "b", "a"])], s') := by
  obtain ⟨c, hrun, hstream⟩ := columnRun_streams
  exact (stream_read_back columnAgree hrun).1 _ hstream _ rfl

theorem iterated_read_back_of_column :
    ∃ s : AsyncResultStreamIterator, .result true (some []) ∈ s.returned ∧ ∃ reader,
      ArrowStreamReader.try_new columnDecoder (encapsulated ⟨schemaMetadata, []⟩) = .ok reader ∧
      (readAll columnDecoder reader (buffers s.returned).tail).1 =
        [.ok (some ["a", "b", "a"]), .ok (some ["a", "b", "a"])] := by
  obtain ⟨c, hrun, hstream⟩ := columnRun_streams
  obtain ⟨s, hiterator, hs⟩ := Run.exists_of_execute (show (execute
    (Worker.ResultStream.step (columnStream.chunks.map .chunk ++ [.chunk []])) Always
      (.initial (encapsulated ⟨schemaMetadata, []⟩)) [.next, .next, .answer 0, .resume, .next,
        .answer 1, .resume, .next, .answer 2, .resume]).map
      (fun s => decide (.result true (some []) ∈ s.returned)) = some true by decide +kernel)
  have hend := of_decide_eq_true hs
  obtain ⟨-, hall, reader, hnew, hread⟩ := iterated_read_back columnAgree hrun hstream rfl
    (fun r hr => by
      obtain ⟨b, hb, rfl⟩ := List.mem_map.mp hr
      rintro rfl
      exact absurd hb (by decide +kernel)) rfl hiterator
  refine ⟨s, hend, reader, hnew, ?_⟩
  rw [hread, hall hend]
  rfl

end Example

end Haybarn.WebDB.SentDictionaries
