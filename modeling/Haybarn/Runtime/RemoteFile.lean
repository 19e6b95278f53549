import Mathlib

/-!
# Opening a remote file

`openFile` of the browser's runtime finds out how long a remote file is, and whether ranges of it
can be read (bindings/runtime_browser.ts, the branch of HTTP and S3). It asks with up to four
requests: a HEAD for the range `0-`, a GET for the first byte, a second HEAD, and a GET for
everything. What it accepts is either a length, and every later `readFile` is a request for a
range, or the whole file in a buffer.

`open_is_sound_iff` says when this is right for a server that is consistent about the file: always,
but where the second HEAD is refused. Its length is taken without a look at its status, so that the
length of a page that says so becomes the length of the file (`refused_length_is_believed`).

Mirroring notes:
- A request has a method and a range, an answer the status and the headers that are looked at, and
  the content. One that fails altogether is the text of its error.
- The protocol decides where the request goes, and how it is signed: that is behind `Server`, as
  is an S3 URL that `getHTTPUrl` throws on, which is a request that fails.
- `+text` is a number for digits, and `none` stands for NaN: a browser takes no other
  `Content-Length`. Numbers are exact, as lengths below 2^53 are in a double.
- `_malloc` finds a block, and a buffer is the bytes that are put there. For no bytes at all it may
  be null, which the caller takes for no buffer: then there is nothing to read.
- `new Date(..)` of the header is left to the caller.
-/

namespace Haybarn.Runtime.RemoteFile

/-! ## Requests -/

inductive Method
  | head
  | get
  deriving DecidableEq, Repr

/-- `Range: bytes=first-last`, the last byte included; without one it goes to the end. -/
structure Request where
  method : Method
  range : Option (Nat × Option Nat)
  deriving DecidableEq, Repr

structure Response where
  status : Nat
  statusText : String
  contentLength : Option (List Char)
  lastModified : Option (List Char)
  content : List UInt8
  deriving DecidableEq, Repr

/-- What an `XMLHttpRequest` comes to: an answer, or the text of the error that `send` throws. -/
abbrev Server := Request → Except String Response

/-! ## The code -/

structure File where
  fileName : String
  dataUrl : String
  /-- a file that is remote has a URL; `readFile` throws without one -/
  remote : dataUrl ≠ ""
  allowFullHttpReads : Bool
  forceFullHttpReads : Bool
  reliableHeadRequests : Bool

def FILE_FLAGS_READ : Nat := 1
def FILE_FLAGS_WRITE : Nat := 2
def FILE_FLAGS_FILE_CREATE : Nat := 8
def FILE_FLAGS_FILE_CREATE_NEW : Nat := 16
def FILE_FLAGS_APPEND : Nat := 32

/-- When the file was changed, as the three numbers of the result have it. -/
inductive Modified
  | header (lastModified : Option (List Char))
  | now
  deriving DecidableEq, Repr

/-- The three numbers that `openFile` returns a pointer to; no buffer is the number 0. -/
structure Opened where
  size : Option Nat
  buffer : Option (List UInt8)
  modified : Modified
  deriving DecidableEq, Repr

/-- `+text`. -/
def number (text : List Char) : Option Nat :=
  if text.all Char.isDigit then some (Nat.ofDigitChars 10 text 0) else none

/-- `a !== null && b !== null && +a == +b`: NaN is equal to nothing. -/
def sameNumber (a b : Option (List Char)) : Bool :=
  match a.bind number, b.bind number with
  | some m, some n => m == n
  | _, _ => false

def headRequest : Request := ⟨.head, some (0, none)⟩

def firstByteRequest : Request := ⟨.get, some (0, some 0)⟩

def fullRequest : Request := ⟨.get, none⟩

/-- The answer is the file. -/
def fullBuffer (xhr : Response) : Opened :=
  { size := some xhr.content.length
    buffer := some xhr.content
    modified := .header xhr.lastModified }

/-- What `new Error(message).toString()` is. -/
def newError (message : String) : String := "Error: " ++ message

def openForWriting (file : File) (flags : Nat) (serve : Server) :
    Except String (Option Opened) := do
  let xhr ← serve ⟨.head, none⟩
  if xhr.status ≠ 200 ∧ xhr.status ≠ 404 then
    throw (newError ("Opening file " ++ file.fileName
      ++ " failed: Unexpected return status from server (" ++ toString xhr.status ++ ")"))
  else if xhr.status = 404 ∧ flags &&& FILE_FLAGS_FILE_CREATE = 0 ∧
      flags &&& FILE_FLAGS_FILE_CREATE_NEW = 0 then
    throw (newError ("Opening file " ++ file.fileName
      ++ " failed: Cannot write to non-existent file without FILE_FLAGS_FILE_CREATE or "
      ++ "FILE_FLAGS_FILE_CREATE_NEW flag."))
  else return some { size := some 1, buffer := some [], modified := .now }

/-- What the first HEAD request leaves behind. -/
structure HeadAttempt where
  opened : Option Opened
  contentLength : Option (List Char)
  error : Option String

/-- Send a dummy HEAD request with range protocol: good iff status is 206 and the length is
present. -/
def headAttempt (file : File) (serve : Server) : HeadAttempt :=
  if !file.forceFullHttpReads && (file.reliableHeadRequests || !file.allowFullHttpReads) then
    match serve headRequest with
    | .error e => { opened := none, contentLength := none, error := some e }
    | .ok xhr =>
      { opened :=
          match xhr.contentLength with
          | none => none
          | some contentLength =>
            if xhr.status = 206 then
              some
                { size := number contentLength
                  buffer := none
                  modified := .header xhr.lastModified }
            else none
        contentLength := xhr.contentLength
        error := none }
  else { opened := none, contentLength := none, error := none }

/-- `contentRange`, which is looked for in `Content-Length`. -/
def contentRange (actualContentLength : Option (List Char)) : Option (List Char) :=
  actualContentLength.bind fun text => (text.splitOn '/')[1]?

/-- The presumed length, and what `contentLength` is then: another dummy HEAD request may be
sent. -/
def presume (file : File) (serve : Server)
    (actualContentLength contentLength : Option (List Char)) :
    Except String (Option (List Char) × Option (List Char)) :=
  match contentRange actualContentLength with
  | some range => .ok (some range, contentLength)
  | none =>
    if !file.reliableHeadRequests then
      match serve headRequest with
      | .error e => .error e
      | .ok head =>
        if (head.contentLength.bind number).any (1 < ·) then
          .ok (head.contentLength, head.contentLength)
        else .ok (none, head.contentLength)
    else .ok (none, contentLength)

/-- Send a dummy GET range request querying the first byte of the file. -/
def rangeAttempt (file : File) (serve : Server) (contentLength : Option (List Char)) :
    Except String (Option Opened) := do
  let xhr ← serve firstByteRequest
  let (presumedLength, contentLength) ← presume file serve xhr.contentLength contentLength
  if xhr.status = 206 ∧ xhr.contentLength.bind number = some 1 ∧ presumedLength ≠ none then
    return some
      { size := presumedLength.bind number
        buffer := none
        modified := .header xhr.lastModified }
  else if xhr.status = 200 ∧ sameNumber xhr.contentLength contentLength then
    return some (fullBuffer xhr)
  else return none

/-- Send non-range request. -/
def fullRead (serve : Server) : Except String (Option Opened) := do
  let xhr ← serve fullRequest
  if xhr.status = 200 then return some (fullBuffer xhr) else return none

def fallback (file : File) (serve : Server) (contentLength : Option (List Char)) :
    Except String (Option Opened) := do
  if file.allowFullHttpReads then
    if !file.forceFullHttpReads then
      match ← rangeAttempt file serve contentLength with
      | some opened => return some opened
      | none => fullRead serve
    else fullRead serve
  else return none

def openForReading (file : File) (serve : Server) : Except String (Option Opened) :=
  let head := headAttempt file serve
  match head.opened with
  | some opened => .ok (some opened)
  | none =>
    match fallback file serve head.contentLength with
    | .error e => .error e
    | .ok (some opened) => .ok (some opened)
    | .ok none =>
      match head.error with
      | some e =>
        .error (newError ("Reading file " ++ file.fileName ++ " failed with error: " ++ e))
      | none => .ok none

/-- An error is one that `failWith` is told; `none` is the null pointer. -/
def openFile (file : File) (flags : Nat) (serve : Server) : Except String (Option Opened) :=
  if flags &&& FILE_FLAGS_READ ≠ 0 ∧ flags &&& FILE_FLAGS_WRITE ≠ 0 then
    .error (newError ("Opening file " ++ file.fileName
      ++ " failed: cannot open file with both read and write flags set"))
  else if flags &&& FILE_FLAGS_APPEND ≠ 0 then
    .error (newError ("Opening file " ++ file.fileName
      ++ " failed: appending to HTTP/S3 files is not supported"))
  else if flags &&& FILE_FLAGS_WRITE ≠ 0 then openForWriting file flags serve
  else if flags &&& FILE_FLAGS_READ = 0 then
    .error (newError ("Opening file " ++ file.fileName ++ " failed: unsupported file flags: "
      ++ toString flags))
  else openForReading file serve

/-- `new Uint8Array(content, location, Math.min(content.byteLength - location, bytes))`, which
throws for a location behind the end. -/
def uint8Array (content : List UInt8) (location bytes : Nat) : Except String (List UInt8) :=
  if location ≤ content.length then .ok ((content.drop location).take bytes)
  else .error "RangeError: Invalid typed array length"

def rangeRequest (file : File) (serve : Server) (bytes location : Nat) :
    Except String (List UInt8) := do
  let xhr ← serve ⟨.get, some (location, some (location + bytes - 1))⟩
  if xhr.status = 206 ∨ xhr.status = 200 ∧ bytes = xhr.content.length ∧ location = 0 then
    return xhr.content.take bytes
  else if xhr.status = 200 then uint8Array xhr.content location bytes
  else
    throw (newError ("Range request for " ++ file.dataUrl ++ " did returned non-success status: "
      ++ toString xhr.status ++ " \"" ++ xhr.statusText ++ "\""))

/-- The bytes that `readFile` puts into the buffer; their number is what it returns. -/
def readFile (file : File) (serve : Server) (bytes location : Nat) : Except String (List UInt8) :=
  if bytes = 0 then .ok []
  else
    match rangeRequest file serve bytes location with
    | .ok src => .ok src
    | .error e =>
      .error (newError ("Range request for " ++ file.dataUrl ++ " failed with error: " ++ e
        ++ "\""))

/-! ## Consistent servers -/

/-- There is no length, or it is this one. -/
def HasLength (n : Nat) (contentLength : Option (List Char)) : Prop :=
  contentLength = none ∨ contentLength = some (Nat.toDigits 10 n)

def succeeds (xhr : Response) : Prop := xhr.status = 200 ∨ xhr.status = 206

/-- A server that is consistent about a file: what it answers with success is true of the file, and
if it says that it has ranges, it answers the requests for those in the file. What it answers
otherwise (a refusal, a range that cannot be had) is its own business. -/
structure Consistent (serve : Server) (body : List UInt8) : Prop where
  full : ∀ {xhr}, serve fullRequest = .ok xhr → xhr.status = 200 →
    xhr.content = body ∧ HasLength body.length xhr.contentLength
  ignored : ∀ {first last xhr}, serve ⟨.get, some (first, some last)⟩ = .ok xhr →
    xhr.status = 200 → xhr.content = body ∧ HasLength body.length xhr.contentLength
  part : ∀ {first last xhr}, serve ⟨.get, some (first, some last)⟩ = .ok xhr →
    xhr.status = 206 → xhr.content = (body.drop first).take (last + 1 - first) ∧
      HasLength xhr.content.length xhr.contentLength
  head : ∀ {xhr}, serve headRequest = .ok xhr → succeeds xhr →
    HasLength body.length xhr.contentLength
  ranges : (∃ xhr, (serve headRequest = .ok xhr ∨ serve firstByteRequest = .ok xhr) ∧
      xhr.status = 206) →
    ∀ {first last}, first ≤ last → last < body.length →
      ∃ xhr, serve ⟨.get, some (first, some last)⟩ = .ok xhr ∧ succeeds xhr

/-- Every request for a range in the file gets the bytes there. -/
def Readable (file : File) (serve : Server) (body : List UInt8) : Prop :=
  ∀ bytes location, location + bytes ≤ body.length →
    readFile file serve bytes location = .ok ((body.drop location).take bytes)

structure Sound (file : File) (serve : Server) (body : List UInt8) (opened : Opened) : Prop where
  size : opened.size = some body.length
  bytes : opened.buffer = some body ∨ opened.buffer = none ∧ Readable file serve body

/-- The length of an answer that refuses the second HEAD is taken for that of the file. -/
def TakesRefusal (file : File) (serve : Server) (body : List UInt8) : Prop :=
  file.allowFullHttpReads = true ∧ file.forceFullHttpReads = false ∧
    file.reliableHeadRequests = false ∧
    (∃ xhr, serve firstByteRequest = .ok xhr ∧ xhr.status = 206 ∧
      xhr.contentLength.bind number = some 1) ∧
    ∃ head n, serve headRequest = .ok head ∧ ¬ succeeds head ∧
      head.contentLength.bind number = some n ∧ 1 < n ∧ n ≠ body.length

def Reads (flags : Nat) : Prop :=
  flags &&& FILE_FLAGS_READ ≠ 0 ∧ flags &&& FILE_FLAGS_WRITE = 0 ∧ flags &&& FILE_FLAGS_APPEND = 0

/-! ## Lengths -/

theorem number_toDigits (n : Nat) : number (Nat.toDigits 10 n) = some n := by
  unfold number
  rw [if_pos, Nat.ofDigitChars_ten_toDigits]
  rw [List.all_eq_true]
  exact fun c hc => Nat.isDigit_of_mem_toDigits (by omega) (by omega) hc

theorem HasLength.number_eq {n m : Nat} {contentLength : Option (List Char)}
    (h : HasLength n contentLength) (hm : contentLength.bind number = some m) : m = n := by
  obtain rfl | rfl := h
  · cases hm
  · rw [Option.bind_some, number_toDigits] at hm
    exact (Option.some.inj hm).symm

/-- A number has no slash, so that there is never a range in `Content-Length`. -/
theorem contentRange_of_number {contentLength : Option (List Char)} {n : Nat}
    (h : contentLength.bind number = some n) : contentRange contentLength = none := by
  cases contentLength with
  | none => rfl
  | some text =>
    rw [Option.bind_some] at h
    have hdigits : text.all Char.isDigit = true := by
      unfold number at h
      split at h
      next hall => exact hall
      next => cases h
    have hsplit : text.splitOn '/' = [text] := by
      rw [List.splitOn_eq_splitOnP, List.splitOnP_eq_singleton]
      intro c hc
      rw [List.all_eq_true] at hdigits
      have hdigit := hdigits c hc
      rw [beq_eq_false_iff_ne]
      rintro rfl
      exact absurd hdigit (by decide)
    unfold contentRange
    rw [Option.bind_some, hsplit]
    rfl

/-! ## What is accepted -/

theorem headAttempt_opened {file : File} {serve : Server} {opened : Opened}
    (h : (headAttempt file serve).opened = some opened) :
    ∃ xhr text, serve headRequest = .ok xhr ∧ xhr.status = 206 ∧
      xhr.contentLength = some text ∧ opened.size = number text ∧ opened.buffer = none := by
  unfold headAttempt at h
  split at h
  next =>
    cases hserve : serve headRequest with
    | error e => rw [hserve] at h; cases h
    | ok xhr =>
      rw [hserve] at h
      cases htext : xhr.contentLength with
      | none => simp only [htext] at h; cases h
      | some text =>
        simp only [htext] at h
        split at h
        next hstatus =>
          obtain rfl := Option.some.inj h
          exact ⟨xhr, text, rfl, hstatus, htext, rfl, rfl⟩
        next => cases h
  next => cases h

/-- A length that is presumed comes from the second HEAD, whatever its status. -/
theorem presume_some {file : File} {serve : Server}
    {actual contentLength contentLength' : Option (List Char)} {text : List Char}
    (hactual : contentRange actual = none)
    (h : presume file serve actual contentLength = .ok (some text, contentLength')) :
    file.reliableHeadRequests = false ∧ ∃ head n, serve headRequest = .ok head ∧
      head.contentLength.bind number = some n ∧ 1 < n ∧ number text = some n := by
  unfold presume at h
  rw [hactual] at h
  dsimp only at h
  split at h
  next hreliable =>
    cases hserve : serve headRequest with
    | error e => rw [hserve] at h; cases h
    | ok head =>
      rw [hserve] at h
      dsimp only at h
      split at h
      next hlong =>
        obtain ⟨n, hn, hlt⟩ := (Option.any_eq_true _ _).mp hlong
        simp only [Except.ok.injEq, Prod.mk.injEq] at h
        rw [h.1, Option.bind_some] at hn
        rw [decide_eq_true_eq] at hlt
        refine ⟨by simpa using hreliable, head, n, rfl, ?_, hlt, hn⟩
        rw [h.1, Option.bind_some, hn]
      next => cases h
  next => cases h

/-- The range attempt accepts a length that the second HEAD has given, or a file that was sent in
spite of the range. -/
theorem rangeAttempt_some {file : File} {serve : Server} {contentLength : Option (List Char)}
    {opened : Opened} (h : rangeAttempt file serve contentLength = .ok (some opened)) :
    ∃ xhr, serve firstByteRequest = .ok xhr ∧
      (xhr.status = 200 ∧ opened = fullBuffer xhr ∨
        xhr.status = 206 ∧ xhr.contentLength.bind number = some 1 ∧ opened.buffer = none ∧
          file.reliableHeadRequests = false ∧ ∃ head n, serve headRequest = .ok head ∧
            head.contentLength.bind number = some n ∧ 1 < n ∧ opened.size = some n) := by
  unfold rangeAttempt at h
  cases hserve : serve firstByteRequest with
  | error e => rw [hserve] at h; cases h
  | ok xhr =>
    rw [hserve] at h
    simp only [bind, Except.bind] at h
    refine ⟨xhr, rfl, ?_⟩
    cases hpresume : presume file serve xhr.contentLength contentLength with
    | error e => rw [hpresume] at h; cases h
    | ok presumed =>
      obtain ⟨presumedLength, contentLength'⟩ := presumed
      rw [hpresume] at h
      dsimp only at h
      split at h
      next hpart =>
        obtain ⟨hstatus, hone, hne⟩ := hpart
        obtain ⟨text, rfl⟩ := Option.ne_none_iff_exists'.mp hne
        obtain ⟨hreliable, head, n, hhead, hn, hlt, htext⟩ :=
          presume_some (contentRange_of_number hone) hpresume
        obtain rfl := Option.some.inj (Except.ok.inj h)
        exact Or.inr ⟨hstatus, hone, rfl, hreliable, head, n, hhead, hn, hlt, htext⟩
      next =>
        split at h
        next hfull => exact Or.inl ⟨hfull.1, (Option.some.inj (Except.ok.inj h)).symm⟩
        next => cases h

theorem fullRead_some {serve : Server} {opened : Opened}
    (h : fullRead serve = .ok (some opened)) :
    ∃ xhr, serve fullRequest = .ok xhr ∧ xhr.status = 200 ∧ opened = fullBuffer xhr := by
  unfold fullRead at h
  cases hserve : serve fullRequest with
  | error e => rw [hserve] at h; cases h
  | ok xhr =>
    rw [hserve] at h
    simp only [bind, Except.bind] at h
    split at h
    next hstatus => exact ⟨xhr, rfl, hstatus, (Option.some.inj (Except.ok.inj h)).symm⟩
    next => cases h

theorem fallback_some {file : File} {serve : Server} {contentLength : Option (List Char)}
    {opened : Opened} (h : fallback file serve contentLength = .ok (some opened)) :
    file.allowFullHttpReads = true ∧
      (file.forceFullHttpReads = false ∧
          rangeAttempt file serve contentLength = .ok (some opened) ∨
        fullRead serve = .ok (some opened)) := by
  unfold fallback at h
  split at h
  next hallow =>
    refine ⟨hallow, ?_⟩
    split at h
    next hforce =>
      cases hrange : rangeAttempt file serve contentLength with
      | error e => rw [hrange] at h; cases h
      | ok found =>
        rw [hrange] at h
        cases found with
        | some opened' =>
          obtain rfl := Option.some.inj (Except.ok.inj h)
          exact Or.inl ⟨by simpa using hforce, rfl⟩
        | none => exact Or.inr h
    next => exact Or.inr h
  next => cases h

theorem openFile_reads (file : File) {flags : Nat} (hflags : Reads flags) (serve : Server) :
    openFile file flags serve = openForReading file serve := by
  obtain ⟨hread, hwrite, happend⟩ := hflags
  unfold openFile
  rw [if_neg fun h => h.2 hwrite, if_neg fun h => h happend, if_neg fun h => h hwrite,
    if_neg hread]

theorem openForReading_some {file : File} {serve : Server} {opened : Opened}
    (h : openForReading file serve = .ok (some opened)) :
    (headAttempt file serve).opened = some opened ∨
      fallback file serve (headAttempt file serve).contentLength = .ok (some opened) := by
  unfold openForReading at h
  dsimp only at h
  split at h
  next opened' hhead => exact Or.inl (hhead.trans (Except.ok.inj h))
  next =>
    split at h
    next => cases h
    next opened' hfall => exact Or.inr (hfall.trans h)
    next =>
      split at h
      next => cases h
      next => cases h

/-! ## Reading -/

/-- A server that has ranges is read by them, and where it sends the whole file in place of one, the
range is cut out of it. -/
theorem Consistent.readable {serve : Server} {body : List UInt8} (h : Consistent serve body)
    (file : File)
    (hranges : ∃ xhr, (serve headRequest = .ok xhr ∨ serve firstByteRequest = .ok xhr) ∧
      xhr.status = 206) : Readable file serve body := by
  intro bytes location hin
  unfold readFile
  split
  next hzero => rw [hzero, List.take_zero]
  next hpos =>
    obtain ⟨xhr, hserve, hstatus⟩ :=
      h.ranges hranges (show location ≤ location + bytes - 1 by omega) (by omega)
    have hread : rangeRequest file serve bytes location =
        .ok ((body.drop location).take bytes) := by
      unfold rangeRequest
      rw [hserve]
      simp only [bind, Except.bind]
      obtain hstatus | hstatus := hstatus
      · have hcontent := (h.ignored hserve hstatus).1
        rw [hcontent, hstatus]
        split
        next hall =>
          -- the range was the whole file
          obtain hpart | ⟨-, hlen, rfl⟩ := hall
          · cases hpart
          · rw [List.drop_zero]
            rfl
        next =>
          rw [if_pos rfl]
          unfold uint8Array
          rw [if_pos (by omega)]
      · have hcontent := (h.part hserve hstatus).1
        have hlen : location + bytes - 1 + 1 - location = bytes := by omega
        rw [if_pos (Or.inl hstatus), hcontent, hlen, List.take_take, Nat.min_self]
        rfl
    rw [hread]

/-! ## A server with ranges -/

/-- A server that has ranges of its files, and answers every HEAD in one way. -/
def rangeServer (body : List UInt8) (head : Response) : Server
  | ⟨.head, _⟩ => .ok head
  | ⟨.get, none⟩ => .ok ⟨200, "OK", some (Nat.toDigits 10 body.length), none, body⟩
  | ⟨.get, some (first, last)⟩ =>
    if first < body.length then
      let content := (body.drop first).take (last.getD (body.length - 1) + 1 - first)
      .ok ⟨206, "Partial Content", some (Nat.toDigits 10 content.length), none, content⟩
    else .ok ⟨416, "Range Not Satisfiable", none, none, []⟩

theorem rangeServer_consistent {body : List UInt8} {head : Response}
    (hhead : succeeds head → HasLength body.length head.contentLength) :
    Consistent (rangeServer body head) body := by
  have hrange : ∀ {first last xhr},
      rangeServer body head ⟨.get, some (first, some last)⟩ = .ok xhr →
      xhr.status = 416 ∨
        xhr.status = 206 ∧ xhr.content = (body.drop first).take (last + 1 - first) ∧
        HasLength xhr.content.length xhr.contentLength := by
    intro first last xhr h
    rw [rangeServer] at h
    split at h
    next =>
      obtain rfl := Except.ok.inj h
      exact Or.inr ⟨rfl, rfl, Or.inr rfl⟩
    next =>
      obtain rfl := Except.ok.inj h
      exact Or.inl rfl
  refine ⟨?_, ?_, ?_, ?_, ?_⟩
  · intro xhr h _
    obtain rfl := Except.ok.inj h
    exact ⟨rfl, Or.inr rfl⟩
  · intro first last xhr h hstatus
    obtain h416 | ⟨h206, -⟩ := hrange h
    · rw [hstatus] at h416
      cases h416
    · rw [hstatus] at h206
      cases h206
  · intro first last xhr h hstatus
    obtain h416 | ⟨-, hpart⟩ := hrange h
    · rw [hstatus] at h416
      cases h416
    · exact hpart
  · intro xhr h hok
    obtain rfl := Except.ok.inj h
    exact hhead hok
  · intro _ first last hle hlt
    have hin : first < body.length := by omega
    exact ⟨_, if_pos hin, Or.inr rfl⟩

/-! ## Opening -/

/-- A refusal that is long enough is taken, when the first byte has come as a range. -/
theorem takes_refusal {file : File} {serve : Server} {body : List UInt8}
    (h : TakesRefusal file serve body) :
    ∃ opened n, openForReading file serve = .ok (some opened) ∧ opened.size = some n ∧
      n ≠ body.length := by
  obtain ⟨hallow, hforce, hreliable, hpart, head, n, hhead, -, hn, hlt, hne⟩ := h
  obtain ⟨xhr, hfirst, hstatus, hone⟩ := hpart
  have hskip : headAttempt file serve = ⟨none, none, none⟩ := by
    unfold headAttempt
    rw [if_neg (by simp [hallow, hreliable])]
  have hpresume : presume file serve xhr.contentLength none =
      .ok (head.contentLength, head.contentLength) := by
    unfold presume
    rw [contentRange_of_number hone]
    dsimp only
    rw [if_pos (by simp [hreliable]), hhead]
    dsimp only
    rw [hn, if_pos (by simpa using hlt)]
  have hsome : head.contentLength ≠ none := by
    intro hnone
    rw [hnone] at hn
    cases hn
  have hrange : rangeAttempt file serve none =
      .ok (some ⟨head.contentLength.bind number, none, .header xhr.lastModified⟩) := by
    unfold rangeAttempt
    rw [hfirst]
    simp only [bind, Except.bind]
    rw [hpresume]
    dsimp only
    rw [if_pos ⟨hstatus, hone, hsome⟩]
    rfl
  refine ⟨⟨head.contentLength.bind number, none, .header xhr.lastModified⟩, n, ?_, hn, hne⟩
  unfold openForReading
  rw [hskip]
  dsimp only
  unfold fallback
  rw [hallow, hforce, hrange]
  rfl

/-- **A remote file is opened with its length, and every byte of it can be read, for every server
that is consistent about it, unless the length is that of a refused HEAD.** -/
theorem open_is_sound_iff (file : File) {flags : Nat} (hflags : Reads flags) {serve : Server}
    {body : List UInt8} (hserve : Consistent serve body) :
    (∀ opened, openFile file flags serve = .ok (some opened) → Sound file serve body opened) ↔
      ¬ TakesRefusal file serve body := by
  rw [openFile_reads file hflags]
  constructor
  · intro h hrefusal
    obtain ⟨opened, n, hopen, hsize, hne⟩ := takes_refusal hrefusal
    have hlen := (h opened hopen).size
    rw [hsize] at hlen
    exact hne (Option.some.inj hlen)
  · intro h opened hopen
    have hbuffer : ∀ xhr : Response, xhr.content = body →
        Sound file serve body (fullBuffer xhr) := by
      rintro xhr rfl
      exact ⟨rfl, Or.inl rfl⟩
    obtain hhead | hfall := openForReading_some hopen
    · obtain ⟨xhr, text, hxhr, hstatus, htext, hsize, hnone⟩ := headAttempt_opened hhead
      have hlen := hserve.head hxhr (Or.inr hstatus)
      rw [htext] at hlen
      obtain hlen | hlen := hlen
      · cases hlen
      · obtain rfl := Option.some.inj hlen
        refine ⟨by rw [hsize, number_toDigits], Or.inr ⟨hnone, ?_⟩⟩
        exact hserve.readable file ⟨xhr, Or.inl hxhr, hstatus⟩
    · obtain ⟨hallow, ⟨hforce, hrange⟩ | hfull⟩ := fallback_some hfall
      · obtain ⟨xhr, hxhr, ⟨hstatus, rfl⟩ | hpart⟩ := rangeAttempt_some hrange
        · exact hbuffer xhr (hserve.ignored hxhr hstatus).1
        · obtain ⟨hstatus, hone, hnone, hreliable, head, n, hhead, hn, hlt, hsize⟩ := hpart
          refine ⟨?_, Or.inr ⟨hnone, hserve.readable file ⟨xhr, Or.inr hxhr, hstatus⟩⟩⟩
          rw [hsize]
          by_cases hok : succeeds head
          · rw [(hserve.head hhead hok).number_eq hn]
          · by_contra hne
            exact h ⟨hallow, hforce, hreliable, ⟨xhr, hxhr, hstatus, hone⟩, head, n, hhead, hok, hn,
              hlt, fun heq => hne (congrArg some heq)⟩
      · obtain ⟨xhr, hxhr, hstatus, rfl⟩ := fullRead_some hfull
        exact hbuffer xhr (hserve.full hxhr hstatus).1

def remoteFile : File where
  fileName := "a.parquet"
  dataUrl := "https://host/a.parquet"
  remote := by decide
  allowFullHttpReads := true
  forceFullHttpReads := false
  reliableHeadRequests := false

/-- With a HEAD that is answered the file is opened with its length. -/
theorem open_is_sound_answered :
    Sound remoteFile (rangeServer [1, 2, 3] ⟨200, "OK", some ['3'], none, []⟩) [1, 2, 3]
      ⟨some 3, none, .header none⟩ := by
  have hserve : Consistent (rangeServer [1, 2, 3] ⟨200, "OK", some ['3'], none, []⟩) [1, 2, 3] :=
    rangeServer_consistent fun _ => Or.inr rfl
  have hflags : Reads FILE_FLAGS_READ := ⟨by decide, rfl, rfl⟩
  refine (open_is_sound_iff remoteFile hflags hserve).mpr ?_ _ rfl
  rintro ⟨-, -, -, -, head, n, hhead, hfails, -⟩
  obtain rfl := Except.ok.inj hhead
  exact hfails (Or.inl rfl)

/-- A page of 157 bytes that says that HEAD is not allowed makes a file of three bytes one of
157. -/
theorem refused_length_is_believed :
    ¬ ∀ (file : File) (flags : Nat) (serve : Server) (body : List UInt8) (opened : Opened),
      Reads flags → Consistent serve body → openFile file flags serve = .ok (some opened) →
        Sound file serve body opened := by
  intro h
  have hserve : Consistent (rangeServer [1, 2, 3]
      ⟨405, "Not Allowed", some ['1', '5', '7'], none, []⟩) [1, 2, 3] := by
    refine rangeServer_consistent fun hok => ?_
    obtain hok | hok := hok <;> cases hok
  have hsize := (h remoteFile FILE_FLAGS_READ _ _ ⟨some 157, none, .header none⟩
    ⟨by decide, rfl, rfl⟩ hserve rfl).size
  exact absurd hsize (by decide)

end Haybarn.Runtime.RemoteFile
