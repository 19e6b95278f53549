import Haybarn.Http.Mailbox
import Haybarn.Lib.Memory
import Haybarn.Lib.Utf8

/-!
# The wire format of responses

A response travels to the engine as `[status:2][headersLen:4][headers][bodyLen:4][body]`, all
numbers little-endian. Three JavaScript functions write it: `encode` of the fetch helper, into a
fresh array, and `wasm_xhr_no_body` and `wasm_xhr_with_body` of `http_wasm.cc`, byte by byte into
the heap of the engine. `ParseWasmResponse` reads it there.

Mirroring notes:

* a text is a string of characters, and `TextEncoder` is UTF-8;
* `HttpUtil` is what DuckDB's `HTTPUtil`, `StringUtil` and `HTTPHeaders` do here, none of which
  is part of this repository, and `HttpUtil.Laws` says what is relied on: how a text splits at a
  separator, how it is trimmed, and that headers are a map whose keys ignore ASCII case;
* a number that JavaScript shifts is taken as a 32-bit integer with a sign;
* what `_malloc` returns is the pointer and the memory after it, which may have grown. A byte
  stored past the heap is lost, and a block that does not fit makes `set` throw.
-/

namespace Haybarn.Http

open Haybarn.Lib

/-! ## The encoder of the fetch helper -/

/-- The header text of a response, as the helper joins it. -/
def headerText (headers : List (String × String)) : String :=
  "\r\n".intercalate (headers.map fun h => h.1 ++ ": " ++ h.2)

/-- `encode` of the fetch helper. -/
def encode (status : Nat) (headers : String) (body : List UInt8) : List UInt8 :=
  let head := textEncode headers
  littleEndian 2 status ++ littleEndian 4 head.length ++ head ++
    littleEndian 4 body.length ++ body

/-- What the helper of the mailbox sends is this encoding. -/
theorem wire_eq_encode {web : Web} (h : web.encode = textEncode) (r : Response) :
    r.wire web = encode r.status (headerText r.headers) r.body := by
  unfold Response.wire
  rw [h]
  rfl

/-! ## The producers in the heap of the engine -/

/-- `(n >> k) & 0xFF` -/
def shiftByte (n k : Nat) : UInt8 :=
  UInt8.ofNat ((BitVec.ofNat 32 n).sshiftRight k &&& 0xFF#32).toNat

/-- `HEAPU8[o] = b` -/
def storeByte (m : Memory) (o : Nat) (b : UInt8) : Memory :=
  if o < m.size then m.write o [b] else m

/-- `HEAPU8.set(bs, o)` -/
def setBytes (m : Memory) (o : Nat) (bs : List UInt8) : Option Memory :=
  if o + bs.length ≤ m.size then some (m.write o bs) else none

/-- `if (bs.length > 0) HEAPU8.set(bs, o)` -/
def setNonempty (m : Memory) (o : Nat) (bs : List UInt8) : Option Memory :=
  if bs.length > 0 then setBytes m o bs else some m

/-- The four stores of a length. -/
def storeLength (m : Memory) (o n : Nat) : Memory :=
  let m := storeByte m o (shiftByte n 0)
  let m := storeByte m (o + 1) (shiftByte n 8)
  let m := storeByte m (o + 2) (shiftByte n 16)
  storeByte m (o + 3) (shiftByte n 24)

/-- What a synchronous `XMLHttpRequest` has after `send`. -/
structure Xhr where
  status : Nat
  /-- `getAllResponseHeaders()` -/
  headers : Option String
  /-- `response` -/
  response : Option (List UInt8)

/-- What the two producers do with the response: `none` if they throw, else the pointer they
return and the memory. -/
def respond (xhr : Xhr) (heap : Memory) (malloc : Nat → Nat × Memory) : Option (Nat × Memory) :=
  let resp := xhr.response.getD []
  let bodyLen := resp.length
  if xhr.status = 0 then some (0, heap)
  else
    let hdrsBuf := textEncode (xhr.headers.getD "")
    let hdrsLen := hdrsBuf.length
    let total := 2 + 4 + hdrsLen + 4 + bodyLen
    let (buf, m) := malloc total
    if buf = 0 then some (0, m)
    else do
      let m := storeByte m buf (shiftByte xhr.status 0)
      let m := storeByte m (buf + 1) (shiftByte xhr.status 8)
      let m := storeLength m (buf + 2) hdrsLen
      let m ← setNonempty m (buf + 6) hdrsBuf
      let m := storeLength m (buf + 6 + hdrsLen) bodyLen
      let m ← setNonempty m (buf + 10 + hdrsLen) resp
      return (buf, m)

/-- `wasm_xhr_no_body`. There is no `XMLHttpRequest` when `send` is `none`, and it throws when it
returns `none`. -/
def wasm_xhr_no_body (web : Web) (send : Option (Asked → Option Xhr)) (heap : Memory)
    (malloc : Nat → Nat × Memory) (url method : List UInt8)
    (headers : List (List UInt8 × List UInt8)) : Option (Nat × Memory) :=
  match send with
  | none => some (0, heap)
  | some send =>
    match send ⟨web.decode url, web.decode method, headers.foldl (addHeader web) [], none⟩ with
    | none => some (0, heap)
    | some xhr => respond xhr heap malloc

/-- `wasm_xhr_with_body`, which sends the payload. -/
def wasm_xhr_with_body (web : Web) (send : Option (Asked → Option Xhr)) (heap : Memory)
    (malloc : Nat → Nat × Memory) (url method : List UInt8)
    (headers : List (List UInt8 × List UInt8)) (payload : List UInt8) :
    Option (Nat × Memory) :=
  match send with
  | none => some (0, heap)
  | some send =>
    match send ⟨web.decode url, web.decode method, headers.foldl (addHeader web) [],
      some payload⟩ with
    | none => some (0, heap)
    | some xhr => respond xhr heap malloc

/-! ## The parser -/

/-- What the parser uses of DuckDB. -/
structure HttpUtil where
  Status : Type
  Headers : Type
  NotFound_404 : Status
  ToStatusCode : Nat → Status
  /-- `StringUtil::Split` of a text at a separator -/
  Split : List UInt8 → List UInt8 → List (List UInt8)
  Trim : List UInt8 → List UInt8
  empty : Headers
  Insert : Headers → List UInt8 → List UInt8 → Headers
  find : Headers → List UInt8 → Option (List UInt8)

structure HTTPResponse (util : HttpUtil) where
  status : util.Status
  reason : String := ""
  headers : util.Headers
  body : List UInt8 := []

/-- Four bytes at `p`, put together as `ParseWasmResponse` does. -/
def loadLength (m : Memory) (p : Nat) : Nat :=
  (((m.byte p).toNat ||| ((m.byte (p + 1)).toNat <<< 8)) ||| ((m.byte (p + 2)).toNat <<< 16)) |||
    ((m.byte (p + 3)).toNat <<< 24)

/-- `line.find(':')`: what stands before the first colon and after it. -/
def splitColon (line : List UInt8) : Option (List UInt8 × List UInt8) :=
  match line.dropWhile (· != 58) with
  | [] => none
  | _ :: val => some (line.takeWhile (· != 58), val)

/-- One line of the header text. -/
def insertLine (util : HttpUtil) (headers : util.Headers) (line : List UInt8) : util.Headers :=
  match splitColon line with
  | none => headers
  | some (key, val) =>
    let key := util.Trim key
    let val := util.Trim val
    if key ≠ [] then util.Insert headers key val else headers

def ParseWasmResponse (util : HttpUtil) (m : Memory) (buf : Nat) : HTTPResponse util :=
  if buf = 0 then
    { status := util.NotFound_404
      reason := "XMLHttpRequest failed or unavailable — check the browser console for CORS or " ++
        "network errors"
      headers := util.empty }
  else
    let p := buf
    let status_code := (m.byte p).toNat ||| ((m.byte (p + 1)).toNat <<< 8)
    let p := p + 2
    let headers_len := loadLength m p
    let p := p + 4
    let raw_headers := m.read p headers_len
    let p := p + headers_len
    let body_len := loadLength m p
    let p := p + 4
    { status := util.ToStatusCode status_code
      headers := (util.Split raw_headers [13, 10]).foldl (insertLine util) util.empty
      body := if body_len > 0 then m.read p body_len else [] }

/-! ## What is relied on -/

/-- `std::isspace` -/
def isSpace (b : UInt8) : Prop := b = 32 ∨ 9 ≤ b ∧ b ≤ 13

instance (b : UInt8) : Decidable (isSpace b) := inferInstanceAs (Decidable (_ ∨ _))

/-- Neither the first nor the last is a space. -/
def Trimmed (s : List UInt8) : Prop :=
  (∀ b ∈ s.head?, ¬ isSpace b) ∧ ∀ b ∈ s.getLast?, ¬ isSpace b

def toLower (b : UInt8) : UInt8 := if 65 ≤ b ∧ b ≤ 90 then b + 32 else b

/-- The names are the same but for ASCII case. -/
def SameName (a b : List UInt8) : Prop := a.map toLower = b.map toLower

instance (a b : List UInt8) : Decidable (SameName a b) := inferInstanceAs (Decidable (_ = _))

structure HttpUtil.Laws (util : HttpUtil) : Prop where
  split : ∀ (sep : List UInt8) (pieces : List (List UInt8)), sep ≠ [] → pieces ≠ [] →
    (∀ piece ∈ pieces, piece ≠ [] ∧ ∀ b ∈ piece, b ∉ sep) →
    util.Split (sep.intercalate pieces) sep = pieces
  split_nil : ∀ sep, ∀ piece ∈ util.Split [] sep, piece = []
  trim : ∀ before s after, (∀ b ∈ before ++ after, isSpace b) → Trimmed s →
    util.Trim (before ++ s ++ after) = s
  find_empty : ∀ key, util.find util.empty key = none
  find_insert : ∀ headers key val key', util.find headers key = none →
    util.find (util.Insert headers key val) key' =
      if SameName key key' then some val else util.find headers key'

end Haybarn.Http
