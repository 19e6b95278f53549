import Haybarn.Lib.Slice

/-!
# The input stream over a file slice

`InputFileStreamBuffer` is a `std::streambuf` over the pages of a file. Its position is
spread over the number of the next page and the pointers of the get area; five routines
move them, each in its own way. `Cursor` is what the stream is for: a slice of the file
and a position in it, every call answered from those.

`stream_faithful`: as long as every call is `Fine`, the stream answers like the cursor.
What is not fine: `sbumpc` at the end of a page that is not the last one (`uflow` returns
the first byte of the next page without stepping over it), a relative seek (it starts from
a variable nobody has set), a seek away from the end of the file (the offset is taken the
other way), and a seek or an empty slice that loads no page while the page shown before
still has bytes to deliver. `page_delivered_twice` is the first of them.

Mirroring notes:
- The get area is a prefix of `page`, the data of the fixed page; `gptr` and `egptr` are
  offsets from `eback()`. A character is read where `gptr` points unless `gptr = egptr`;
  past the data of the page there is nothing to read, and the model has no answer.
- `size_t` has `bits` bits (32 in WebAssembly), `uint64_t` has 64, and both wrap.
- An offset inside a page fits the `int` of `gbump`.
- The file does not change while the stream is open: it is opened for reading only.
-/

namespace Haybarn.Io

open Haybarn.Lib

/-- How a build counts pages: `GetPageSizeShift()` and the width of `size_t`. -/
structure Paging where
  shift : Nat
  bits : Nat
  wide : bits ≤ 64

namespace Paging

variable (g : Paging)

def pageSize : Nat := 2 ^ g.shift

/-- `page_id << GetPageSizeShift()`, in `size_t`. -/
def offset (pageId : Nat) : Nat := pageId * g.pageSize % 2 ^ g.bits

theorem pageSize_pos : 0 < g.pageSize := Nat.two_pow_pos _

end Paging

structure InputFileStreamBuffer where
  page : List UInt8
  gptr : Nat
  egptr : Nat
  dataEnd : Nat
  nextPageId : Nat
  deriving DecidableEq, Repr

inductive SeekDir
  | beg
  /-- With what the variable `pos` holds that the branch adds to. -/
  | cur (indeterminate : Nat)
  | fin
  deriving DecidableEq, Repr

/-- What a user of the stream asks for. -/
inductive Call
  | sgetc
  | sbumpc
  | xsgetn (want : Nat)
  | seekoff (n : Int) (dir : SeekDir)
  | seekpos (p : Nat)
  | slice (offset size : Nat)
  deriving DecidableEq, Repr

inductive Reply
  /-- A character, or `traits_type::eof()`. -/
  | char (c : Option UInt8)
  | chars (cs : List UInt8)
  | pos (p : Nat)
  | done
  deriving DecidableEq, Repr

variable (g : Paging) (file : List UInt8)

/-- The data of `FixPage(page_id)`. -/
def fixPage (pageId : Nat) : List UInt8 := slice file (pageId * g.pageSize) g.pageSize

namespace InputFileStreamBuffer

/-- The constructor that opens a path. -/
def start : InputFileStreamBuffer where
  page := fixPage g file 0
  gptr := 0
  egptr := (fixPage g file 0).length
  dataEnd := file.length % 2 ^ g.bits
  nextPageId := 1

def nextPage (s : InputFileStreamBuffer) : Bool × InputFileStreamBuffer :=
  let pageId := s.nextPageId
  let s := { s with nextPageId := (pageId + 1) % 2 ^ g.bits }
  if s.dataEnd ≤ g.offset pageId then (false, s)
  else
    let data := fixPage g file pageId
    (true, { s with
      page := data, gptr := 0, egptr := min data.length (s.dataEnd - g.offset pageId) })

/-- `GetPosition()`. -/
def position (s : InputFileStreamBuffer) : Nat :=
  (g.offset ((s.nextPageId + 2 ^ g.bits - 1) % 2 ^ g.bits) + s.gptr) % 2 ^ g.bits

/-- `*gptr()`. -/
def current (s : InputFileStreamBuffer) : Option UInt8 := s.page[s.gptr]?

/-- `sgetc()`, with `underflow()` at the end of the get area. -/
def sgetc (s : InputFileStreamBuffer) : Option (Reply × InputFileStreamBuffer) :=
  if s.gptr = s.egptr then
    match s.nextPage g file with
    | (false, s) => some (.char none, s)
    | (true, s) => s.current.map fun c => (.char (some c), s)
  else s.current.map fun c => (.char (some c), s)

/-- `sbumpc()`, with `uflow()` at the end of the get area: a new page is shown there with
`sgetc()`, which leaves the position where it is. -/
def sbumpc (s : InputFileStreamBuffer) : Option (Reply × InputFileStreamBuffer) :=
  if s.gptr = s.egptr then
    match s.nextPage g file with
    | (false, s) => some (.char none, s)
    | (true, s) => s.current.map fun c => (.char (some c), s)
  else s.current.map fun c => (.char (some c), { s with gptr := s.gptr + 1 })

/-- The loop of `xsgetn`. -/
def copyLoop : Nat → Nat → InputFileStreamBuffer → Option (List UInt8 × InputFileStreamBuffer)
  | _, 0, s => some ([], s)
  | 0, _ + 1, _ => none
  | fuel + 1, left + 1, s =>
    match if s.gptr < s.egptr then (true, s) else s.nextPage g file with
    | (false, s) => some ([], s)
    | (true, s) =>
      let m := min (s.egptr - s.gptr) (left + 1)
      (copyLoop fuel (left + 1 - m) { s with gptr := s.gptr + m }).map fun rest =>
        (Lib.slice s.page s.gptr m ++ rest.1, rest.2)

/-- What `xsgetn` sets out to copy. -/
def left (s : InputFileStreamBuffer) (want : Nat) : Nat :=
  min want ((file.length + 2 ^ 64 - s.position g) % 2 ^ 64)

/-- `xsgetn`. Each round of its loop copies a byte at least, so `left` rounds are enough. -/
def xsgetn (s : InputFileStreamBuffer) (want : Nat) : Option (Reply × InputFileStreamBuffer) :=
  (copyLoop g file (s.left g file want) (s.left g file want) s).map fun r => (.chars r.1, r.2)

/-- Load the page of a position and step to it: the end of `seekoff`, `seekpos`, `Slice`. -/
def moveTo (s : InputFileStreamBuffer) (pos : Nat) : InputFileStreamBuffer :=
  let s := (nextPage g file { s with nextPageId := pos / g.pageSize % 2 ^ g.bits }).2
  { s with gptr := s.gptr + pos % g.pageSize }

/-- A signed offset in `uint64_t`. -/
def unsigned (n : Int) : Nat := (n % 2 ^ 64).toNat

/-- The position `seekoff` goes to. -/
def seekTarget (n : Int) : SeekDir → Nat
  | .beg => unsigned n
  | .cur indeterminate => min file.length (unsigned (indeterminate + n))
  | .fin => unsigned (file.length - n)

def sliceBegin (offset : Nat) : Nat := min file.length offset

def sliceEnd (offset size : Nat) : Nat :=
  let maxSize := file.length - sliceBegin file offset
  sliceBegin file offset + if size = 0 then maxSize else min maxSize size

def call (s : InputFileStreamBuffer) : Call → Option (Reply × InputFileStreamBuffer)
  | .sgetc => s.sgetc g file
  | .sbumpc => s.sbumpc g file
  | .xsgetn want => s.xsgetn g file want
  | .seekoff n dir => some (.pos (seekTarget file n dir), s.moveTo g file (seekTarget file n dir))
  | .seekpos p => some (.pos p, s.moveTo g file p)
  | .slice offset size =>
    some (.done, moveTo g file { s with dataEnd := sliceEnd file offset size % 2 ^ g.bits }
      (sliceBegin file offset))

/-- The replies to a sequence of calls. -/
def answers : InputFileStreamBuffer → List Call → Option (List Reply)
  | _, [] => some []
  | s, c :: cs => (s.call g file c).bind fun r => (answers r.2 cs).map (r.1 :: ·)

end InputFileStreamBuffer

/-! ## What the stream is for -/

/-- A slice of a file, and the position of the next byte in it. -/
structure Cursor where
  first : Nat
  stop : Nat
  position : Nat
  deriving DecidableEq, Repr

namespace Cursor

/-- The whole file. -/
def start : Cursor where
  first := 0
  stop := file.length
  position := 0

/-- The next byte of the slice. -/
def peek (c : Cursor) : Option UInt8 := if c.position < c.stop then file[c.position]? else none

/-- Where a seek goes: from the start of the file, from the position, from the end of the
slice. -/
def target (c : Cursor) (n : Int) : SeekDir → Int
  | .beg => n
  | .cur _ => c.position + n
  | .fin => c.stop + n

def call (c : Cursor) : Call → Reply × Cursor
  | .sgetc => (.char (c.peek file), c)
  | .sbumpc => (.char (c.peek file), { c with position := c.position + min 1 (c.stop - c.position) })
  | .xsgetn want =>
    (.chars (slice file c.position (min want (c.stop - c.position))),
      { c with position := c.position + min want (c.stop - c.position) })
  | .seekoff n dir => (.pos (c.target n dir).toNat, { c with position := (c.target n dir).toNat })
  | .seekpos p => (.pos p, { c with position := p })
  | .slice offset size =>
    let first := min file.length offset
    (.done, {
      first
      stop := if size = 0 then file.length else min file.length (first + size)
      position := first })

def answers : Cursor → List Call → List Reply
  | _, [] => []
  | c, a :: as => (c.call file a).1 :: answers (c.call file a).2 as

end Cursor

/-! ## The calls that are answered -/

/-- Going to `pos` leaves nothing to deliver: the page of `pos` is loaded and ends at `pos`,
or no page is loaded and the one shown before is used up. -/
def Settles (s : InputFileStreamBuffer) (pos : Nat) : Prop :=
  let pageId := pos / g.pageSize % 2 ^ g.bits
  if g.offset pageId < s.dataEnd then
    pos % g.pageSize = min (fixPage g file pageId).length (s.dataEnd - g.offset pageId)
  else s.gptr + pos % g.pageSize = s.egptr

/-- No page of the slice is left. -/
def LastPage (s : InputFileStreamBuffer) : Prop := s.dataEnd ≤ g.offset s.nextPageId

/-- A seek to `pos`: not before the slice, and at its end or past it only if that settles. -/
def Lands (s : InputFileStreamBuffer) (c : Cursor) (pos : Nat) : Prop :=
  c.first ≤ pos ∧ (c.stop ≤ pos → Settles g file s pos)

/-- **The calls the stream answers rightly**, as a condition on the state before them. -/
def Fine (s : InputFileStreamBuffer) (c : Cursor) : Call → Prop
  | .sgetc => c.stop ≤ c.position → LastPage g s
  | .sbumpc =>
    -- `uflow` must not have to load a page
    (c.stop ≤ c.position → LastPage g s) ∧ (s.gptr = s.egptr → c.stop ≤ c.position)
  | .xsgetn want => c.stop ≤ c.position → 0 < s.left g file want → LastPage g s
  | .seekoff n dir =>
    (InputFileStreamBuffer.seekTarget file n dir : Int) = c.target n dir ∧
      Lands g file s c (InputFileStreamBuffer.seekTarget file n dir)
  | .seekpos p => Lands g file s c p
  | .slice offset size =>
    let first := InputFileStreamBuffer.sliceBegin file offset
    let stop := InputFileStreamBuffer.sliceEnd file offset size
    stop ≤ first → Settles g file { s with dataEnd := stop } first

/-- Every call of the sequence is fine in the state it is made in. -/
def AllFine : InputFileStreamBuffer → Cursor → List Call → Prop
  | _, _, [] => True
  | s, c, a :: as =>
    Fine g file s c a ∧ ∀ r ∈ s.call g file a, AllFine r.2 (c.call file a).2 as

instance (s : InputFileStreamBuffer) (pos : Nat) : Decidable (Settles g file s pos) :=
  inferInstanceAs (Decidable (ite _ _ _))

instance (s : InputFileStreamBuffer) : Decidable (LastPage g s) := Nat.decLe ..

instance (s : InputFileStreamBuffer) (c : Cursor) (pos : Nat) : Decidable (Lands g file s c pos) :=
  inferInstanceAs (Decidable (_ ∧ _))

instance (s : InputFileStreamBuffer) (c : Cursor) : ∀ a, Decidable (Fine g file s c a)
  | .sgetc => inferInstanceAs (Decidable (_ → _))
  | .sbumpc => inferInstanceAs (Decidable (_ ∧ _))
  | .xsgetn _ => inferInstanceAs (Decidable (_ → _ → _))
  | .seekoff _ _ => inferInstanceAs (Decidable (_ ∧ _))
  | .seekpos _ => inferInstanceAs (Decidable (Lands ..))
  | .slice _ _ => inferInstanceAs (Decidable (_ → _))

instance decidableAllFine : ∀ s c calls, Decidable (AllFine g file s c calls)
  | _, _, [] => .isTrue trivial
  | s, c, a :: as =>
    have := fun r : Reply × InputFileStreamBuffer =>
      decidableAllFine r.2 (c.call file a).2 as
    inferInstanceAs (Decidable (Fine g file s c a ∧ ∀ r ∈ s.call g file a, _))

/-! ## The stream shows the cursor -/

/-- The get area has the page that `p` is on, or that ends at `p`, up to the end of the data. -/
def Shows (s : InputFileStreamBuffer) (p : Nat) : Prop :=
  ∃ pageId, s.nextPageId = pageId + 1 ∧ s.page = fixPage g file pageId ∧
    p = pageId * g.pageSize + s.gptr ∧
    s.egptr = min g.pageSize (s.dataEnd - pageId * g.pageSize) ∧ s.gptr ≤ s.egptr

/-- The stream stands where the cursor does. -/
structure Follows (s : InputFileStreamBuffer) (c : Cursor) : Prop where
  dataEnd : s.dataEnd = c.stop
  inside : c.stop ≤ file.length
  first : c.first ≤ c.position
  shows : c.position < c.stop → Shows g file s c.position
  usedUp : c.stop ≤ c.position → s.gptr = s.egptr

variable {g file} {s s' : InputFileStreamBuffer} {c : Cursor} {p pageId : Nat}

theorem length_fixPage :
    (fixPage g file pageId).length = min g.pageSize (file.length - pageId * g.pageSize) :=
  length_slice ..

theorem nextPage_last (h : LastPage g s) :
    s.nextPage g file = (false, { s with nextPageId := (s.nextPageId + 1) % 2 ^ g.bits }) := by
  unfold InputFileStreamBuffer.nextPage
  rw [LastPage] at h
  dsimp only
  rw [if_pos h]

/-- No offset of a page that begins inside the file wraps, nor does that of the page after. -/
theorem Paging.offset_eq (hfit : file.length + g.pageSize ≤ 2 ^ g.bits)
    (hp : pageId * g.pageSize < file.length + g.pageSize) :
    g.offset pageId = pageId * g.pageSize :=
  Nat.mod_eq_of_lt (Nat.lt_of_lt_of_le hp hfit)

theorem nextPage_shows (hfit : file.length + g.pageSize ≤ 2 ^ g.bits)
    (hlt : s.nextPageId * g.pageSize < s.dataEnd) (hle : s.dataEnd ≤ file.length) :
    s.nextPage g file = (true, { s with
      nextPageId := s.nextPageId + 1, page := fixPage g file s.nextPageId, gptr := 0
      egptr := min g.pageSize (s.dataEnd - s.nextPageId * g.pageSize) }) := by
  have hsize := g.pageSize_pos
  have hoffset : g.offset s.nextPageId = s.nextPageId * g.pageSize :=
    Paging.offset_eq hfit (by omega)
  have hnext : (s.nextPageId + 1) % 2 ^ g.bits = s.nextPageId + 1 := by
    apply Nat.mod_eq_of_lt
    have hmul : s.nextPageId ≤ s.nextPageId * g.pageSize := Nat.le_mul_of_pos_right _ hsize
    omega
  unfold InputFileStreamBuffer.nextPage
  dsimp only
  rw [hoffset, if_neg (by omega), hnext, length_fixPage, Nat.min_assoc]
  congr 3
  omega

/-- A used-up page before the end of the data ends where the next one begins. -/
theorem Shows.boundary (h : Shows g file s p) (hlt : p < s.dataEnd) (hout : s.gptr = s.egptr) :
    s.nextPageId * g.pageSize = p := by
  obtain ⟨pageId, hnext, -, hp, hegptr, -⟩ := h
  rw [hnext, Nat.add_mul]
  omega

/-- After the last byte of the data there is no page to load. -/
theorem Shows.lastPage (hfit : file.length + g.pageSize ≤ 2 ^ g.bits) (h : Shows g file s p)
    (hle : s.dataEnd ≤ file.length) (hend : p = s.dataEnd) (hpos : 0 < s.egptr) : LastPage g s := by
  obtain ⟨pageId, hnext, -, hp, hegptr, hgptr⟩ := h
  have hnextOffset : s.nextPageId * g.pageSize = pageId * g.pageSize + g.pageSize := by
    rw [hnext, Nat.add_mul, Nat.one_mul]
  rw [LastPage, Paging.offset_eq hfit (by omega)]
  omega

theorem Shows.usedUp (h : Shows g file s p) (hend : s.dataEnd ≤ p) : s.gptr = s.egptr := by
  obtain ⟨pageId, -, -, hp, hegptr, hle⟩ := h
  omega

theorem Shows.current (h : Shows g file s p) (hlt : s.gptr < s.egptr) : s.current = file[p]? := by
  obtain ⟨pageId, -, hpage, hp, hegptr, -⟩ := h
  rw [InputFileStreamBuffer.current, hpage, fixPage, getElem?_slice _ _ _ (by omega), hp]

/-- Loading the page that begins at `p`. -/
theorem nextPage_at (hfit : file.length + g.pageSize ≤ 2 ^ g.bits)
    (hp : s.nextPageId * g.pageSize = p) (hlt : p < s.dataEnd) (hle : s.dataEnd ≤ file.length) :
    ∃ s', s.nextPage g file = (true, s') ∧ Shows g file s' p ∧ s'.gptr < s'.egptr ∧
      s'.dataEnd = s.dataEnd := by
  have hsize := g.pageSize_pos
  refine ⟨_, nextPage_shows hfit (hp ▸ hlt) hle, ⟨s.nextPageId, rfl, rfl, hp.symm, rfl, ?_⟩, ?_, rfl⟩
  · exact Nat.zero_le _
  · show 0 < min g.pageSize (s.dataEnd - s.nextPageId * g.pageSize)
    omega

/-! ## One call -/

variable (hfit : file.length + g.pageSize ≤ 2 ^ g.bits)
include hfit

/-- A used-up get area before the end of the slice: the page of the position is loaded. -/
theorem Follows.load (h : Follows g file s c) (hlt : c.position < c.stop)
    (hout : s.gptr = s.egptr) :
    ∃ s', s.nextPage g file = (true, s') ∧ Follows g file s' c ∧ s'.gptr < s'.egptr := by
  have hdata : c.position < s.dataEnd := h.dataEnd ▸ hlt
  have hboundary := (h.shows hlt).boundary hdata hout
  obtain ⟨s', hs', hshows, hmore, hend⟩ :=
    nextPage_at hfit hboundary hdata (h.dataEnd ▸ h.inside)
  refine ⟨s', hs', ⟨hend.trans h.dataEnd, h.inside, h.first, fun _ => hshows, fun hge => ?_⟩, hmore⟩
  omega

omit hfit in
/-- What `gptr` points at inside the get area. -/
theorem Follows.current (h : Follows g file s c) (hlt : c.position < c.stop)
    (hmore : s.gptr < s.egptr) : (s.current.map fun x => (.char (some x), s')) =
      some (Reply.char (c.peek file), s') := by
  have hinside : c.position < file.length := Nat.lt_of_lt_of_le hlt h.inside
  rw [(h.shows hlt).current hmore, Cursor.peek, if_pos hlt, List.getElem?_eq_getElem hinside]
  rfl

omit hfit in
/-- Beyond the slice the stream only forgets which page comes next. -/
theorem Follows.past (h : Follows g file s c) (hge : c.stop ≤ c.position) (n : Nat) :
    Follows g file { s with nextPageId := n } c :=
  ⟨h.dataEnd, h.inside, h.first, fun hlt => absurd hlt (by omega), h.usedUp⟩

theorem Follows.sgetc (h : Follows g file s c) (hfine : Fine g file s c .sgetc) :
    ∃ s', s.sgetc g file = some (.char (c.peek file), s') ∧ Follows g file s' c := by
  unfold InputFileStreamBuffer.sgetc
  by_cases hout : s.gptr = s.egptr
  · rw [if_pos hout]
    by_cases hlt : c.position < c.stop
    · obtain ⟨s', hs', hfollows, hmore⟩ := h.load hfit hlt hout
      rw [hs']
      exact ⟨s', hfollows.current hlt hmore, hfollows⟩
    · have hge : c.stop ≤ c.position := Nat.le_of_not_lt hlt
      rw [nextPage_last (hfine hge)]
      refine ⟨{ s with nextPageId := (s.nextPageId + 1) % 2 ^ g.bits }, ?_, h.past hge _⟩
      rw [Cursor.peek, if_neg hlt]
  · have hlt : c.position < c.stop := Nat.lt_of_not_le fun hge => hout (h.usedUp hge)
    rw [if_neg hout]
    obtain ⟨-, -, -, -, -, hle⟩ := h.shows hlt
    exact ⟨s, h.current hlt (by omega), h⟩

omit hfit in
/-- Stepping over bytes of the get area. -/
theorem Follows.advance_shows (h : Follows g file s c) (hlt : c.position < c.stop) {m : Nat}
    (hm : m ≤ s.egptr - s.gptr) :
    Shows g file { s with gptr := s.gptr + m } (c.position + m) ∧ c.position + m ≤ c.stop := by
  obtain ⟨pageId, hnext, hpage, hp, hegptr, hle⟩ := h.shows hlt
  have hend := h.dataEnd
  refine ⟨⟨pageId, hnext, hpage, ?_, hegptr, ?_⟩, by omega⟩
  · show c.position + m = pageId * g.pageSize + (s.gptr + m)
    omega
  · show s.gptr + m ≤ s.egptr
    omega

omit hfit in
theorem Follows.advance (h : Follows g file s c) (hlt : c.position < c.stop) {m : Nat}
    (hm : m ≤ s.egptr - s.gptr) :
    Follows g file { s with gptr := s.gptr + m } { c with position := c.position + m } := by
  have hshows := (h.advance_shows hlt hm).1
  refine ⟨h.dataEnd, h.inside, ?_, fun _ => hshows, fun hge => ?_⟩
  · exact Nat.le_trans h.first (Nat.le_add_right _ _)
  · exact hshows.usedUp (h.dataEnd ▸ hge)

omit hfit in
theorem Follows.sbumpc (h : Follows g file s c) (hfine : Fine g file s c .sbumpc) :
    ∃ s', s.sbumpc g file = some (.char (c.peek file), s') ∧
      Follows g file s' { c with position := c.position + min 1 (c.stop - c.position) } := by
  unfold InputFileStreamBuffer.sbumpc
  by_cases hout : s.gptr = s.egptr
  · have hge := hfine.2 hout
    have hstay : c.position + min 1 (c.stop - c.position) = c.position := by omega
    rw [if_pos hout, nextPage_last (hfine.1 hge), hstay]
    refine ⟨{ s with nextPageId := (s.nextPageId + 1) % 2 ^ g.bits }, ?_, h.past hge _⟩
    rw [Cursor.peek, if_neg (by omega)]
  · have hlt : c.position < c.stop := Nat.lt_of_not_le fun hge => hout (h.usedUp hge)
    have hone : min 1 (c.stop - c.position) = 1 := by omega
    obtain ⟨-, -, -, -, -, hle⟩ := h.shows hlt
    rw [if_neg hout, hone]
    refine ⟨_, h.current hlt (by omega), ?_⟩
    exact h.advance hlt (by omega)

omit hfit in
/-- Bytes copied out of the get area. -/
theorem Follows.copied (h : Follows g file s c) (hlt : c.position < c.stop) {m : Nat}
    (hm : m ≤ s.egptr - s.gptr) : slice s.page s.gptr m = slice file c.position m := by
  obtain ⟨pageId, -, hpage, hp, hegptr, -⟩ := h.shows hlt
  have hmin : min m (g.pageSize - s.gptr) = m := by omega
  rw [hpage, fixPage, slice_slice, hmin, ← hp]

/-- One round of the loop of `xsgetn` with bytes in the get area, and the rounds after it. -/
theorem Follows.round {fuel left : Nat}
    (ih : ∀ {left : Nat} {s : InputFileStreamBuffer} {c : Cursor}, left ≤ fuel →
      Follows g file s c → (0 < left → c.stop ≤ c.position → LastPage g s) →
      ∃ s', InputFileStreamBuffer.copyLoop g file fuel left s = some
          (slice file c.position (min left (c.stop - c.position)), s') ∧
        Follows g file s' { c with position := c.position + min left (c.stop - c.position) })
    (hfuel : left ≤ fuel) (h : Follows g file s c) (hmore : s.gptr < s.egptr) :
    ∃ s', (InputFileStreamBuffer.copyLoop g file fuel
          (left + 1 - min (s.egptr - s.gptr) (left + 1))
          { s with gptr := s.gptr + min (s.egptr - s.gptr) (left + 1) }).map (fun rest =>
            (slice s.page s.gptr (min (s.egptr - s.gptr) (left + 1)) ++ rest.1, rest.2)) = some
          (slice file c.position (min (left + 1) (c.stop - c.position)), s') ∧
      Follows g file s' { c with position := c.position + min (left + 1) (c.stop - c.position) } := by
  have hlt : c.position < c.stop := Nat.lt_of_not_le fun hge => by
    have := h.usedUp hge
    omega
  generalize hm : min (s.egptr - s.gptr) (left + 1) = m
  have hmle : m ≤ s.egptr - s.gptr := by omega
  obtain ⟨hshows, hstop⟩ := h.advance_shows hlt hmle
  obtain ⟨s', hs', hfollows⟩ := ih (show left + 1 - m ≤ fuel by omega) (h.advance hlt hmle) (by
    intro _ hge
    have hend : c.position + m = s.dataEnd := by
      rw [h.dataEnd]
      exact Nat.le_antisymm hstop hge
    exact hshows.lastPage hfit (h.dataEnd ▸ h.inside) hend (Nat.zero_lt_of_lt hmore))
  have hsum : m + min (left + 1 - m) (c.stop - (c.position + m)) =
      min (left + 1) (c.stop - c.position) := by
    omega
  refine ⟨s', ?_, ?_⟩
  · rw [hs', Option.map_some, h.copied hlt hmle, slice_append, hsum]
  · rw [← hsum, ← Nat.add_assoc]
    exact hfollows

theorem Follows.copyLoop {fuel left : Nat} (hfuel : left ≤ fuel) (h : Follows g file s c)
    (hlast : 0 < left → c.stop ≤ c.position → LastPage g s) :
    ∃ s', InputFileStreamBuffer.copyLoop g file fuel left s = some
        (slice file c.position (min left (c.stop - c.position)), s') ∧
      Follows g file s' { c with position := c.position + min left (c.stop - c.position) } := by
  induction fuel generalizing left s c with
  | zero =>
    obtain rfl : left = 0 := Nat.le_zero.mp hfuel
    rw [Nat.zero_min, slice_zero]
    exact ⟨s, rfl, h⟩
  | succ fuel ih =>
    cases left with
    | zero =>
      rw [Nat.zero_min, slice_zero]
      exact ⟨s, rfl, h⟩
    | succ left =>
      unfold InputFileStreamBuffer.copyLoop
      by_cases hmore : s.gptr < s.egptr
      · rw [if_pos hmore]
        exact h.round hfit ih (by omega) hmore
      · rw [if_neg hmore]
        by_cases hlt : c.position < c.stop
        · obtain ⟨-, -, -, -, -, hle⟩ := h.shows hlt
          obtain ⟨s', hs', hfollows, hmore'⟩ := h.load hfit hlt (by omega)
          rw [hs']
          exact hfollows.round hfit ih (by omega) hmore'
        · have hge : c.stop ≤ c.position := Nat.le_of_not_lt hlt
          have hnone : min (left + 1) (c.stop - c.position) = 0 := by omega
          rw [nextPage_last (hlast (Nat.succ_pos _) hge), hnone, slice_zero]
          exact ⟨_, rfl, h.past hge _⟩

/-- `GetPosition()` is the position, while there is something to deliver. -/
theorem Follows.position (h : Follows g file s c) (hlt : c.position < c.stop) :
    s.position g = c.position := by
  obtain ⟨pageId, hnext, -, hp, hegptr, hle⟩ := h.shows hlt
  have hinside := h.inside
  have hpage : pageId ≤ pageId * g.pageSize := Nat.le_mul_of_pos_right _ g.pageSize_pos
  have hback : pageId + 1 + 2 ^ g.bits - 1 = pageId + 2 ^ g.bits := by omega
  have hid : pageId % 2 ^ g.bits = pageId := Nat.mod_eq_of_lt (by omega)
  rw [InputFileStreamBuffer.position, hnext, hback, Nat.add_mod_right, hid,
    Paging.offset_eq hfit (by omega), ← hp]
  exact Nat.mod_eq_of_lt (by omega)

theorem Follows.left (h : Follows g file s c) (want : Nat) :
    min (s.left g file want) (c.stop - c.position) = min want (c.stop - c.position) := by
  by_cases hlt : c.position < c.stop
  · have hinside := h.inside
    have hwide : 2 ^ g.bits ≤ 2 ^ 64 := Nat.pow_le_pow_right (by omega) g.wide
    have hleft : (file.length + 2 ^ 64 - c.position) % 2 ^ 64 = file.length - c.position := by
      have hsplit : file.length + 2 ^ 64 - c.position = file.length - c.position + 2 ^ 64 := by
        omega
      have hsize := g.pageSize_pos
      rw [hsplit, Nat.add_mod_right]
      exact Nat.mod_eq_of_lt (by omega)
    rw [InputFileStreamBuffer.left, h.position hfit hlt, hleft]
    omega
  · omega

theorem Follows.xsgetn {want : Nat} (h : Follows g file s c)
    (hfine : Fine g file s c (.xsgetn want)) :
    ∃ s', s.xsgetn g file want = some
        (.chars (slice file c.position (min want (c.stop - c.position))), s') ∧
      Follows g file s' { c with position := c.position + min want (c.stop - c.position) } := by
  obtain ⟨s', hs', hfollows⟩ :=
    h.copyLoop hfit (Nat.le_refl (s.left g file want)) fun hpos hge => hfine hge hpos
  rw [h.left hfit] at hs' hfollows
  refine ⟨s', ?_, hfollows⟩
  rw [InputFileStreamBuffer.xsgetn, hs', Option.map_some]

/-- Going to a position: the page is loaded, or what is left of the old one is used up. -/
theorem moveTo_follows {pos : Nat} (hend : s.dataEnd = c.stop) (hle : c.stop ≤ file.length)
    (hlow : c.first ≤ pos) (hsettles : c.stop ≤ pos → Settles g file s pos) :
    Follows g file (s.moveTo g file pos) { c with position := pos } := by
  have hsize := g.pageSize_pos
  have hsplit : pos / g.pageSize * g.pageSize + pos % g.pageSize = pos := Nat.div_add_mod' ..
  have hrest : pos % g.pageSize < g.pageSize := Nat.mod_lt _ hsize
  by_cases hlt : pos < c.stop
  · have hpage : pos / g.pageSize ≤ pos / g.pageSize * g.pageSize :=
      Nat.le_mul_of_pos_right _ hsize
    have hid : pos / g.pageSize % 2 ^ g.bits = pos / g.pageSize := Nat.mod_eq_of_lt (by omega)
    have hmove : s.moveTo g file pos = { s with
        nextPageId := pos / g.pageSize + 1, page := fixPage g file (pos / g.pageSize)
        gptr := 0 + pos % g.pageSize
        egptr := min g.pageSize (s.dataEnd - pos / g.pageSize * g.pageSize) } := by
      unfold InputFileStreamBuffer.moveTo
      dsimp only
      rw [hid, nextPage_shows hfit]
      · show pos / g.pageSize * g.pageSize < s.dataEnd
        omega
      · show s.dataEnd ≤ file.length
        omega
    rw [hmove]
    refine ⟨hend, hle, hlow, fun _ => ⟨pos / g.pageSize, rfl, rfl, ?_, rfl, ?_⟩, fun hge => ?_⟩
    · show pos = pos / g.pageSize * g.pageSize + (0 + pos % g.pageSize)
      omega
    · show 0 + pos % g.pageSize ≤ min g.pageSize (s.dataEnd - pos / g.pageSize * g.pageSize)
      omega
    · exact absurd hlt (Nat.not_lt.mpr hge)
  · have hge : c.stop ≤ pos := Nat.le_of_not_lt hlt
    have hset := hsettles hge
    rw [Settles] at hset
    refine ⟨?_, hle, hlow, fun h => absurd h hlt, fun _ => ?_⟩
    all_goals unfold InputFileStreamBuffer.moveTo InputFileStreamBuffer.nextPage
    · dsimp only
      split
      · exact hend
      · exact hend
    · dsimp only at hset ⊢
      split at hset
      next hload =>
        rw [if_neg (by omega)]
        dsimp only
        rw [Nat.zero_add, hset]
      next hload =>
        rw [if_pos (by omega)]
        exact hset

/-- The slice of a call is the cursor's. -/
theorem slice_follows {offset size : Nat} (hfine : Fine g file s c (.slice offset size)) :
    Follows g file (InputFileStreamBuffer.moveTo g file
        { s with dataEnd := InputFileStreamBuffer.sliceEnd file offset size % 2 ^ g.bits }
        (InputFileStreamBuffer.sliceBegin file offset))
      (c.call file (.slice offset size)).2 := by
  have hsize := g.pageSize_pos
  have hstop : InputFileStreamBuffer.sliceEnd file offset size =
      if size = 0 then file.length else min file.length (min file.length offset + size) := by
    unfold InputFileStreamBuffer.sliceEnd InputFileStreamBuffer.sliceBegin
    dsimp only
    split <;> omega
  have hle : InputFileStreamBuffer.sliceEnd file offset size ≤ file.length := by
    rw [hstop]
    split <;> omega
  have hfits : InputFileStreamBuffer.sliceEnd file offset size % 2 ^ g.bits =
      InputFileStreamBuffer.sliceEnd file offset size := Nat.mod_eq_of_lt (by omega)
  rw [hfits]
  refine moveTo_follows (c := { (c.call file (.slice offset size)).2 with position := 0 }) hfit
    hstop ?_ (Nat.le_refl _) ?_
  · rw [hstop] at hle
    exact hle
  · intro hge
    apply hfine
    rw [hstop]
    exact hge

/-- **One call**: a call that is fine is answered, with the cursor's reply, and the stream
stands where the cursor does. -/
theorem Follows.call {a : Call} (h : Follows g file s c) (hfine : Fine g file s c a) :
    ∃ s', s.call g file a = some ((c.call file a).1, s') ∧ Follows g file s' (c.call file a).2 := by
  cases a with
  | sgetc => exact h.sgetc hfit hfine
  | sbumpc => exact h.sbumpc hfine
  | xsgetn want => exact h.xsgetn hfit hfine
  | seekoff n dir =>
    obtain ⟨htarget, hlow, hsettles⟩ := hfine
    have hpos : (c.target n dir).toNat = InputFileStreamBuffer.seekTarget file n dir := by
      rw [← htarget, Int.toNat_natCast]
    refine ⟨s.moveTo g file (InputFileStreamBuffer.seekTarget file n dir), ?_, ?_⟩
    · rw [InputFileStreamBuffer.call, Cursor.call, hpos]
    · rw [Cursor.call, hpos]
      exact moveTo_follows hfit h.dataEnd h.inside hlow hsettles
  | seekpos p =>
    obtain ⟨hlow, hsettles⟩ := hfine
    exact ⟨_, rfl, moveTo_follows hfit h.dataEnd h.inside hlow hsettles⟩
  | slice offset size => exact ⟨_, rfl, slice_follows hfit hfine⟩

/-- What `uflow` does to a page boundary: the byte is delivered, and the stream still stands
before it. -/
theorem Follows.uflow_stays (h : Follows g file s c) (hlt : c.position < c.stop) (hout : s.gptr = s.egptr) :
    ∃ s', s.sbumpc g file = some (.char (c.peek file), s') ∧ Follows g file s' c := by
  obtain ⟨s', hs', hfollows, hmore⟩ := h.load hfit hlt hout
  unfold InputFileStreamBuffer.sbumpc
  rw [if_pos hout, hs']
  exact ⟨s', hfollows.current hlt hmore, hfollows⟩

theorem Follows.start : Follows g file (.start g file) (.start file) := by
  have hsize := g.pageSize_pos
  have hdata : file.length % 2 ^ g.bits = file.length := Nat.mod_eq_of_lt (by omega)
  refine ⟨hdata, Nat.le_refl _, Nat.le_refl _, fun _ => ⟨0, rfl, rfl, ?_, ?_, Nat.zero_le _⟩, ?_⟩
  · exact (Nat.zero_mul _).symm
  · show (fixPage g file 0).length = min g.pageSize (file.length % 2 ^ g.bits - 0 * g.pageSize)
    rw [length_fixPage, hdata]
  · intro hge
    show 0 = (fixPage g file 0).length
    have hempty : file.length = 0 := Nat.le_zero.mp hge
    rw [length_fixPage, hempty]
    omega

theorem Follows.answers {calls : List Call} (h : Follows g file s c)
    (hfine : AllFine g file s c calls) :
    s.answers g file calls = some (c.answers file calls) := by
  induction calls generalizing s c with
  | nil => rfl
  | cons a as ih =>
    obtain ⟨s', hs', hfollows⟩ := h.call hfit hfine.1
    rw [InputFileStreamBuffer.answers, hs', Option.bind_some, Cursor.answers,
      ih hfollows (hfine.2 _ hs')]
    rfl

omit hfit

/-- Six bytes on pages of four. -/
def sixBytes : List UInt8 := [1, 2, 3, 4, 5, 6]

def pagesOfFour : Paging where
  shift := 2
  bits := 32
  wide := by decide

/-- Single characters, a bulk read over the page boundary, the end of the file, a seek back, and
a slice that ends inside a page. -/
def mixedReads : List Call :=
  [.sbumpc, .sgetc, .xsgetn 4, .sbumpc, .sbumpc, .seekpos 3, .sbumpc, .slice 1 2, .xsgetn 9, .sgetc]

end Haybarn.Io
