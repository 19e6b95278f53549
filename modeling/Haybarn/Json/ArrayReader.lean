import Haybarn.Json.Types

/-!
# Reading a JSON array in batches (`json_table.cc`)

`ArrayReader` parses an array event by event into a document, and stops whenever the document has
a batch of elements or the array has ended. The document then goes through the array parser and
the next one begins.

`readNextN_spec` is what that comes to: the next batch is the next `n` elements, or all that is
left, through the parser.

Mirroring notes:
- The array parser is its conversion of single values (`append`) with what `AppendNull` appends;
  its builder is the list of what was appended since `Finish`. The loop over the elements of a
  document is `appendValues`.
- The parser of rapidjson is the list of events that it still has to report. It is complete when
  the array is; when its text ends before, it reports an error.
- `Populate` asserts that the stack of the document holds one value.
-/

namespace Haybarn.Json

open Lib.JsonDoc

/-- Why a reader fails. -/
inductive ReadError
  /-- The parser has reported an error. -/
  | execution
  | invalid (message : String)
  /-- An assertion failed. -/
  | assertion
  deriving DecidableEq, Repr

/-- An array parser of values of some type. -/
structure ArrayParser (V : Type) where
  append : Json → Except String V
  null : V

/-- `AppendValues` -/
def ArrayParser.appendValues {V : Type} (p : ArrayParser V) : Json → Except String (List V)
  | .array vs => Json.appendValues p.append vs
  | v => jsonTypeError "array" v

/-! ## The buffer -/

/-- `ArrayBuffer`: the stack of the document, and how many elements it has. -/
structure ArrayBuffer where
  doc : List Json := []
  depth : Nat := 0
  size : Nat := 0
  done : Bool := false

namespace ArrayBuffer

/-- `size += depth == 1` -/
def sizeBehind (b : ArrayBuffer) : Nat := b.size + if b.depth = 1 then 1 else 0

/-- The handler of an event. -/
def handle (b : ArrayBuffer) : Event → ArrayBuffer
  | .key k => { b with doc := build b.doc (.key k) }
  | .startObject =>
    { b with doc := build b.doc .startObject, depth := b.depth + 1, size := b.sizeBehind }
  | .startArray =>
    { b with doc := build b.doc .startArray, depth := b.depth + 1, size := b.sizeBehind }
  | .endObject n => { b with doc := build b.doc (.endObject n), depth := b.depth - 1 }
  | .endArray n =>
    if b.depth - 1 = 0 then
      { b with doc := build b.doc (.endArray b.size), depth := b.depth - 1, done := true }
    else { b with doc := build b.doc (.endArray n), depth := b.depth - 1 }
  | e => { b with doc := build b.doc e, size := b.sizeBehind }

/-- `Flush`: the document, and the buffer for the next one. -/
def flush (b : ArrayBuffer) : Option (Json × ArrayBuffer) :=
  match if b.done then b.doc else build b.doc (.endArray b.size) with
  | [v] => some (v, { b with doc := build [] .startArray, size := 0 })
  | _ => none

end ArrayBuffer

/-! ## The reader -/

structure ArrayReader (V : Type) where
  /-- What the parser has to report. -/
  input : List Event
  buffer : ArrayBuffer := {}
  parser : ArrayParser V
  builder : List V := []

namespace ArrayReader

variable {V : Type}

/-- A document goes through the parser. -/
def flush (n : ArrayReader V) : Except ReadError (ArrayReader V) :=
  match n.buffer.flush with
  | none => .error .assertion
  | some (doc, buffer) =>
    match n.parser.appendValues doc with
    | .error message => .error (.invalid message)
    | .ok values => .ok { n with buffer := buffer, builder := n.builder ++ values }

/-- The loop of `ReadNextN`. -/
def readLoop (n : Nat) (p : ArrayParser V) (builder : List V) :
    List Event → ArrayBuffer → Except ReadError (ArrayReader V)
  | [], b => if b.done then .ok ⟨[], b, p, builder⟩ else .error .execution
  | e :: es, b =>
    if b.done then .ok ⟨e :: es, b, p, builder⟩
    else if (b.handle e).done ∨ (n ≤ (b.handle e).size ∧ (b.handle e).depth = 1) then
      flush ⟨es, b.handle e, p, builder⟩
    else readLoop n p builder es (b.handle e)

/-- `ReadNextN` -/
def readNextN (n : Nat) (r : ArrayReader V) : Except ReadError (ArrayReader V) :=
  readLoop n r.parser r.builder r.input r.buffer

/-! ## Elements -/

section Elements

variable {n : Nat} {p : ArrayParser V} {builder : List V}

theorem handle_inner {b : ArrayBuffer} {e : Event} (h : 2 ≤ b.depth)
    (he : 2 ≤ depthBehind b.depth e) :
    b.handle e = { b with doc := build b.doc e, depth := depthBehind b.depth e } := by
  have hsize : b.sizeBehind = b.size := by
    unfold ArrayBuffer.sizeBehind
    rw [if_neg (by omega), Nat.add_zero]
  cases e with
  | endArray k =>
    have hnot : ¬ b.depth - 1 = 0 := by
      have : 2 ≤ b.depth - 1 := he
      omega
    exact if_neg hnot
  | key k => rfl
  | endObject k => rfl
  | startObject => unfold ArrayBuffer.handle; rw [hsize]; rfl
  | startArray => unfold ArrayBuffer.handle; rw [hsize]; rfl
  | _ => unfold ArrayBuffer.handle; rw [hsize]; rfl

/-- What is inside an element goes to the document. -/
theorem readLoop_inner (es ts : List Event) : ∀ b : ArrayBuffer, 2 ≤ b.depth → b.done = false →
    Above 2 b.depth es →
    readLoop n p builder (es ++ ts) b = readLoop n p builder ts
      { b with doc := es.foldl build b.doc, depth := es.foldl depthBehind b.depth } := by
  induction es with
  | nil => exact fun _ _ _ _ => rfl
  | cons e es ih =>
    intro b hdepth hdone habove
    have hhandle := handle_inner hdepth habove.1
    have hnoflush : ¬ ((b.handle e).done = true ∨
        (n ≤ (b.handle e).size ∧ (b.handle e).depth = 1)) := by
      rw [hhandle]
      rintro (h | ⟨-, h⟩)
      · exact Bool.false_ne_true (hdone.symm.trans h)
      · have hle : 2 ≤ depthBehind b.depth e := habove.1
        have heq : depthBehind b.depth e = 1 := h
        omega
    rw [List.cons_append, readLoop, if_neg (by rw [hdone]; exact Bool.false_ne_true),
      if_neg hnoflush, hhandle]
    exact ih _ habove.1 hdone habove.2

/-- Between two elements. -/
def between (stack : List Json) (size : Nat) : ArrayBuffer where
  doc := stack
  depth := 1
  size := size

/-- Behind an element the loop flushes or goes on. -/
def afterElement (n : Nat) (p : ArrayParser V) (builder : List V) (ts : List Event)
    (b : ArrayBuffer) : Except ReadError (ArrayReader V) :=
  if n ≤ b.size then flush ⟨ts, b, p, builder⟩ else readLoop n p builder ts b

/-- The last event of an element. -/
theorem readLoop_last {e : Event} {b : ArrayBuffer} {stack : List Json} {size : Nat}
    (hdone : b.done = false) (hhandle : b.handle e = between stack size) (ts : List Event) :
    readLoop n p builder (e :: ts) b =
      afterElement n p builder ts (between stack size) := by
  unfold afterElement
  rw [readLoop, if_neg (by rw [hdone]; exact Bool.false_ne_true), hhandle]
  by_cases hfull : n ≤ (between stack size).size
  · rw [if_pos (.inr ⟨hfull, rfl⟩), if_pos hfull]
  · rw [if_neg (fun h => h.elim nofun fun h => hfull h.1), if_neg hfull]

/-- An object or an array as an element. -/
theorem readLoop_bracketed {start stop : Event} {inner : List Event} {v : Json}
    {stack : List Json} {size : Nat}
    (hstart : (between stack size).handle start =
      { doc := build stack start, depth := 2, size := size + 1 })
    (hinner : Above 2 2 inner ∧ inner.foldl depthBehind 2 = 2)
    (hstop : ∀ b : ArrayBuffer, b.depth = 2 → b.handle stop =
      { b with doc := build b.doc stop, depth := 1 })
    (hbuild : (start :: inner ++ [stop]).foldl build stack = v :: stack) (ts : List Event) :
    readLoop n p builder (start :: inner ++ [stop] ++ ts) (between stack size) =
      afterElement n p builder ts (between (v :: stack) (size + 1)) := by
  have hnoflush : ¬ (((between stack size).handle start).done = true ∨
      (n ≤ ((between stack size).handle start).size ∧
        ((between stack size).handle start).depth = 1)) := by
    rw [hstart]
    rintro (h | ⟨-, h⟩)
    · exact Bool.false_ne_true h
    · exact (Nat.succ_ne_self 1) h
  have hnotdone : ¬ (between stack size).done = true := Bool.false_ne_true
  have hdoc : build (inner.foldl build (build stack start)) stop = v :: stack := by
    rw [List.foldl_append] at hbuild
    exact hbuild
  rw [List.cons_append, List.cons_append, List.append_assoc, readLoop,
    if_neg hnotdone, if_neg hnoflush, hstart,
    readLoop_inner inner _ _ (Nat.le_refl 2) rfl hinner.1]
  refine readLoop_last rfl ?_ ts
  rw [hstop _ hinner.2]
  show ArrayBuffer.mk (build (inner.foldl build (build stack start)) stop) 1 (size + 1) false = _
  rw [hdoc]
  rfl

/-- **An element of the array.** It is pushed and counted. -/
theorem readLoop_element (v : Json) (stack : List Json) (size : Nat) (ts : List Event) :
    readLoop n p builder (events v ++ ts) (between stack size) =
      afterElement n p builder ts (between (v :: stack) (size + 1)) := by
  have hbuild : (events v).foldl build stack = v :: stack := build_events stack v
  cases v with
  | null => rw [events]; exact readLoop_last rfl rfl ts
  | bool x => rw [events]; exact readLoop_last rfl rfl ts
  | number x => rw [events]; exact readLoop_last rfl rfl ts
  | string s => rw [events]; exact readLoop_last rfl rfl ts
  | array vs =>
    rw [events] at hbuild ⊢
    refine readLoop_bracketed rfl (above_elementEvents vs (Nat.le_refl 2)) ?_ hbuild ts
    intro b hb
    unfold ArrayBuffer.handle
    rw [hb]
    rfl
  | object members =>
    rw [events] at hbuild ⊢
    refine readLoop_bracketed rfl (above_memberEvents members (Nat.le_refl 2)) ?_ hbuild ts
    intro b hb
    unfold ArrayBuffer.handle
    rw [hb]

end Elements

/-! ## Batches -/

/-- A reader that has still to read some elements, with anything in its builder. -/
inductive Pending : List Json → ArrayReader V → Prop
  | start (vs : List Json) (p : ArrayParser V) (builder : List V) :
    Pending vs ⟨events (.array vs), {}, p, builder⟩
  | between (vs : List Json) (k : Nat) (p : ArrayParser V) (builder : List V) :
    Pending vs ⟨elementEvents vs ++ [.endArray k], between [.object []] 0, p, builder⟩
  | finished (input : List Event) (b : ArrayBuffer) (p : ArrayParser V) (builder : List V)
    (h : b.done = true) : Pending [] ⟨input, b, p, builder⟩

/-- Values through the parser, with what is left of the input. -/
def delivered (p : ArrayParser V) (builder : List V) (input : List Event) (b : ArrayBuffer)
    (vs : List Json) : Except ReadError (ArrayReader V) :=
  match Json.appendValues p.append vs with
  | .error message => .error (.invalid message)
  | .ok values => .ok ⟨input, b, p, builder ++ values⟩

section Batches

variable {n : Nat} {p : ArrayParser V} {builder : List V}

theorem flush_eq {input : List Event} {b b' : ArrayBuffer} {vs : List Json}
    (h : b.flush = some (.array vs, b')) :
    flush ⟨input, b, p, builder⟩ = delivered p builder input b' vs := by
  unfold flush delivered
  rw [h]
  rfl

/-- The end of the array flushes what there is. -/
theorem readLoop_end (n : Nat) (p : ArrayParser V) (builder : List V) (us : List Json) (k : Nat) :
    ∃ b : ArrayBuffer, b.done = true ∧
      readLoop n p builder [.endArray k] (between (us.reverse ++ [.object []]) us.length) =
        delivered p builder [] b us := by
  obtain ⟨htake, hdrop⟩ := take_push us [.object []] rfl
  have hbuild : build (us.reverse ++ [.object []]) (.endArray us.length) = [.array us] := by
    rw [build, htake, hdrop, List.reverse_reverse]
    rfl
  have hhandle : (between (us.reverse ++ [.object []]) us.length).handle (.endArray k) =
      ⟨[.array us], 0, us.length, true⟩ := by
    show ArrayBuffer.mk (build (us.reverse ++ [.object []]) (.endArray us.length)) _ _ _ = _
    rw [hbuild]
    rfl
  have hnotdone : ¬ (between (us.reverse ++ [.object []]) us.length).done = true :=
    Bool.false_ne_true
  refine ⟨⟨build [] .startArray, 0, 0, true⟩, rfl, ?_⟩
  rw [readLoop, if_neg hnotdone, if_pos (.inl (by rw [hhandle])), hhandle]
  exact flush_eq rfl

/-- A full document is flushed. -/
theorem flush_full (us : List Json) (input : List Event) :
    flush ⟨input, between (us.reverse ++ [.object []]) us.length, p, builder⟩ =
      delivered p builder input (between [.object []] 0) us := by
  obtain ⟨htake, hdrop⟩ := take_push us [.object []] rfl
  have hbuild : build (us.reverse ++ [.object []]) (.endArray us.length) = [.array us] := by
    rw [build, htake, hdrop, List.reverse_reverse]
    rfl
  refine flush_eq ?_
  unfold ArrayBuffer.flush
  have hnotdone : ¬ (between (us.reverse ++ [.object []]) us.length).done = true :=
    Bool.false_ne_true
  have hdoc : build (between (us.reverse ++ [.object []]) us.length).doc
      (.endArray (between (us.reverse ++ [.object []]) us.length).size) = [.array us] := hbuild
  rw [if_neg hnotdone, hdoc]
  rfl

/-- The loop in the middle of a document. The elements that it has go first. -/
theorem readLoop_elements (p : ArrayParser V) (builder : List V) (k : Nat) (vs : List Json) :
    ∀ us : List Json, us.length < n →
      ∃ input b, (∀ builder' : List V, Pending (vs.drop (n - us.length)) ⟨input, b, p, builder'⟩) ∧
        readLoop n p builder (elementEvents vs ++ [.endArray k])
            (between (us.reverse ++ [.object []]) us.length) =
          delivered p builder input b (us ++ vs.take (n - us.length)) := by
  induction vs with
  | nil =>
    intro us _
    obtain ⟨b, hdone, hread⟩ := readLoop_end n p builder us k
    refine ⟨[], b, fun builder' => ?_, ?_⟩
    · rw [List.drop_nil]
      exact .finished [] b p builder' hdone
    · rw [elementEvents, List.nil_append, List.take_nil, List.append_nil]
      exact hread
  | cons v rest ih =>
    intro us hlt
    have hsnoc : v :: (us.reverse ++ [Json.object []]) =
        (us ++ [v]).reverse ++ [Json.object []] := by
      rw [List.reverse_append]
      rfl
    have hlength : us.length + 1 = (us ++ [v]).length := by
      rw [List.length_append, List.length_singleton]
    rw [elementEvents, List.append_assoc, readLoop_element, hsnoc, hlength, afterElement]
    by_cases hfull : n ≤ (us ++ [v]).length
    · -- the document is full, with the one element that it had room for
      have hone : n - us.length = 1 := by omega
      rw [if_pos (show n ≤ (between _ (us ++ [v]).length).size from hfull), flush_full, hone]
      exact ⟨_, _, fun builder' => .between rest k p builder', rfl⟩
    · rw [if_neg (show ¬ n ≤ (between _ (us ++ [v]).length).size from hfull)]
      obtain ⟨input, b, hpending, hread⟩ := ih (us ++ [v]) (Nat.lt_of_not_le hfull)
      have hnext : n - us.length = n - (us ++ [v]).length + 1 := by omega
      rw [hnext, List.drop_succ_cons, List.take_succ_cons]
      refine ⟨input, b, hpending, ?_⟩
      rw [hread, List.append_assoc]
      rfl

/-- **The next batch.** A reader delivers the next `n` elements, or what is left of them, and then
has the others to read. -/
theorem readNextN_spec {vs : List Json} {r : ArrayReader V} (h : Pending vs r) (hn : 1 ≤ n) :
    ∃ input b, (∀ builder' : List V, Pending (vs.drop n) ⟨input, b, r.parser, builder'⟩) ∧
      r.readNextN n = delivered r.parser r.builder input b (vs.take n) := by
  unfold readNextN
  cases h with
  | start _ p builder =>
    have hstart : ¬ ((ArrayBuffer.handle {} .startArray).done = true ∨
        (n ≤ (ArrayBuffer.handle {} .startArray).size ∧
          (ArrayBuffer.handle {} .startArray).depth = 1)) := by
      rintro (h | ⟨h, -⟩)
      · exact Bool.false_ne_true h
      · have hzero : n ≤ 0 := h
        omega
    obtain ⟨input, b, hpending, hread⟩ := readLoop_elements p builder vs.length vs [] hn
    refine ⟨input, b, hpending, ?_⟩
    show readLoop n p builder (events (.array vs)) {} = _
    rw [events, List.cons_append, readLoop, if_neg Bool.false_ne_true, if_neg hstart]
    exact hread
  | between _ k p builder =>
    obtain ⟨input, b, hpending, hread⟩ := readLoop_elements p builder k vs [] hn
    exact ⟨input, b, hpending, hread⟩
  | finished input b p builder hdone =>
    refine ⟨input, b, fun builder' => ?_, ?_⟩
    · rw [List.drop_nil]
      exact .finished input b p builder' hdone
    · rw [List.take_nil]
      show readLoop n p builder input b = .ok ⟨input, b, p, builder ++ []⟩
      rw [List.append_nil]
      cases input with
      | nil => rw [readLoop, if_pos hdone]
      | cons e es => rw [readLoop, if_pos hdone]

end Batches

end ArrayReader

end Haybarn.Json
