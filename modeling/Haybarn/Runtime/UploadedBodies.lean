import Haybarn.Runtime.WriteBuffers

/-!
# What is written is what is uploaded

A file that is written to a buffer should start empty, hold what its handles have written, and be
uploaded when the last handle is closed, if it is remote (`Wanted`).

`openFile` says that the buffer has one byte, whatever that is, because `malloc(0)` may return a
null pointer. Only the truncation that `FILE_FLAGS_FILE_CREATE_NEW` brings takes it away. Growing a
buffer leaves what is in memory between its old end and what is written. And what is uploaded goes
through `writeFile`, which writes to no HTTP file. `Careful` leaves this out.
-/

namespace Haybarn.Runtime.WriteBuffers

open Haybarn.Lib State
open Haybarn.Io.WebFiles (DataProtocol)

/-! ## What is wanted -/

structure Wanted where
  contents : Contents
  /-- The file has been opened to be written to a server. -/
  target : Bool
  uploads : List (List UInt8)

def Wanted.initial : Wanted := ⟨.empty, false, []⟩

/-- A file that is not there, or that is written anew, is empty. -/
def Wanted.openFile (w : Wanted) (f : WebFile) (flags : BitVec 8) : Wanted :=
  if f.data_protocol = .BUFFER then
    if FILE_FLAGS_FILE_CREATE_NEW flags then { w with contents := .empty } else w
  else
    { w with contents := .empty, target := remote f.data_protocol && FILE_FLAGS_WRITE flags }

def Wanted.step (w : Wanted) (s : State) : Event → Wanted
  | .OpenFile flags _ => (s.file.map fun f => w.openFile f flags).getD w
  | .Write h bytes _ =>
    { w with contents := w.contents.write ((s.handles h).getD 0) bytes }
  | .WriteAt _ bytes location _ => { w with contents := w.contents.write location bytes }
  | .Seek .. => w
  | .Truncate _ new_size _ => { w with contents := w.contents.truncate new_size }
  | .Close _ _ =>
    match s.file with
    | some f =>
      if f.handle_count ≤ 1 ∧ f.data_protocol = .BUFFER ∧ w.target = true then
        { w with uploads := w.uploads ++ [segment w.contents.bytes 0 w.contents.size] }
      else w
    | none => w

/-- The code, next to what is wanted. -/
def stepBoth (x : State × Wanted) (e : Event) : Option (State × Wanted) :=
  (x.1.step e).map fun s => (s, x.2.step x.1 e)

/-- The size of the file, the size of the buffer and the bytes are those of the contents. -/
def WebFile.Holds (f : WebFile) (c : Contents) : Prop :=
  f.file_size = some c.size ∧ ∃ b, f.data_buffer = some b ∧ b.size = c.size
    ∧ ∀ i, i < c.size → b.data i = c.bytes i

structure Matches (s : State) (w : Wanted) : Prop where
  contents : ∀ f, s.file = some f → f.data_protocol = .BUFFER → f.Holds w.contents
  uploads : s.uploads = w.uploads

/-! ## When it is what is wanted -/

/-- New buffers are truncated, nothing is written or truncated to behind the end, nor to where a
buffer cannot reach, and what is to be uploaded is, to S3. -/
def State.Careful (s : State) : Event → Prop
  | .OpenFile flags _ => ∀ f ∈ s.file, f.data_protocol ≠ .BUFFER →
    FILE_FLAGS_FILE_CREATE_NEW flags = true
  | .Write h bytes _ => ∀ f ∈ s.file, ∀ position ∈ s.handles h,
    position ≤ f.file_size.getD 0 ∧ position + bytes.length < 4294967296
  | .WriteAt _ bytes location _ => ∀ f ∈ s.file, bytes.length ≠ 0 →
    location ≤ f.file_size.getD 0 ∧ location + bytes.length < 4294967296
  | .Seek .. => True
  | .Truncate _ new_size _ => ∀ f ∈ s.file, new_size ≤ f.file_size.getD 0
  | .Close _ closing => ∀ f ∈ s.file, f.handle_count ≤ 1 → f.data_protocol = .BUFFER →
    f.buffered_http_file = true →
    closing.have_file_lock = true ∧ ∃ url ∈ f.data_url, s.inferDataProtocol url = .S3

instance (s : State) : (e : Event) → Decidable (s.Careful e)
  | .OpenFile flags _ => inferInstanceAs (Decidable (∀ f ∈ s.file, f.data_protocol ≠ .BUFFER →
    FILE_FLAGS_FILE_CREATE_NEW flags = true))
  | .Write h bytes _ => inferInstanceAs (Decidable (∀ f ∈ s.file, ∀ position ∈ s.handles h,
    position ≤ f.file_size.getD 0 ∧ position + bytes.length < 4294967296))
  | .WriteAt _ bytes location _ => inferInstanceAs (Decidable (∀ f ∈ s.file, bytes.length ≠ 0 →
    location ≤ f.file_size.getD 0 ∧ location + bytes.length < 4294967296))
  | .Seek .. => .isTrue trivial
  | .Truncate _ new_size _ => inferInstanceAs (Decidable (∀ f ∈ s.file,
    new_size ≤ f.file_size.getD 0))
  | .Close _ closing => inferInstanceAs (Decidable (∀ f ∈ s.file, f.handle_count ≤ 1 →
    f.data_protocol = .BUFFER → f.buffered_http_file = true →
    closing.have_file_lock = true ∧ ∃ url ∈ f.data_url, s.inferDataProtocol url = .S3))

def Careful (x : State × Wanted) (e : Event) : Prop := x.1.Careful e

instance (x : State × Wanted) (e : Event) : Decidable (Careful x e) :=
  inferInstanceAs (Decidable (x.1.Careful e))

variable {s s' : State} {w : Wanted} {f : WebFile} {b : DataBuffer} {c : Contents} {h : HandleId}

/-! ### Buffers -/

/-- What stays in the buffer stays what it is. -/
theorem resize_data {n i : Nat} (u : Memory) (hi : i < b.size) (hn : i < n) :
    (b.Resize n u).data i = b.data i := by
  unfold DataBuffer.Resize
  split
  · exact (copy_of_mem (Nat.zero_le i) (by omega)).trans (congrArg b.data (Nat.sub_zero i))
  · split
    · exact (copy_of_mem (Nat.zero_le i) (by omega)).trans (congrArg b.data (Nat.sub_zero i))
    · rfl

theorem resize_size (b : DataBuffer) (n : Nat) (u : Memory) : (b.Resize n u).size = n := by
  unfold DataBuffer.Resize
  split
  · rfl
  · split
    · rfl
    · rfl

theorem sizeT_of_lt {n : Nat} (h : n < 4294967296) : sizeT n = n := Nat.mod_eq_of_lt h

theorem WebFile.Holds.truncate {n : Nat} (u : Memory) (hf : f.Holds c) (hn : n ≤ c.size)
    (hc : c.size < 4294967296) : (f.Truncate n u).Holds (c.truncate n) := by
  obtain ⟨_, b, hb, hsize, hdata⟩ := hf
  refine ⟨rfl, b.Resize (sizeT n) u, ?_, ?_, fun i hi => ?_⟩
  · unfold WebFile.Truncate
    rw [hb, Option.map_some]
  · rw [resize_size]
    exact sizeT_of_lt (by omega)
  · have hin : i < n := hi
    rw [sizeT_of_lt (show n < 4294967296 by omega), resize_data u (by omega) hin,
      hdata i (by omega)]
    exact (if_pos (by omega)).symm

/-- A buffer that is truncated when it is opened is empty. -/
theorem holds_empty (u : Memory) (hb : f.data_buffer ≠ none) : (f.Truncate 0 u).Holds .empty := by
  obtain ⟨b, hb'⟩ := Option.ne_none_iff_exists'.mp hb
  refine ⟨rfl, b.Resize (sizeT 0) u, ?_, resize_size .., fun i hi => absurd hi (Nat.not_lt_zero i)⟩
  unfold WebFile.Truncate
  rw [hb', Option.map_some]

theorem WebFile.Holds.write {position : Nat} {bytes : List UInt8} (u : Memory) (hf : f.Holds c)
    (hin : position ≤ c.size) (hroom : position + bytes.length < 4294967296) :
    (f.Write position bytes u).Holds (c.write position bytes) := by
  obtain ⟨hfile, b, hb, hsize, hdata⟩ := hf
  have hposition : sizeT position = position := sizeT_of_lt (by omega)
  -- the bytes, wherever the buffer keeps what it held
  have hput : ∀ data : Memory, (∀ i, i < c.size → data i = b.data i) → ∀ i,
      i < max c.size (position + bytes.length) →
      put data position bytes i = (c.write position bytes).bytes i := by
    intro data hkept i hi
    show _ = put c.padded position bytes i
    by_cases hbehind : position ≤ i ∧ i < position + bytes.length
    · exact put_of_mem hbehind.1 hbehind.2
    · have hc : i < c.size := by omega
      refine put_congr ?_
      rw [hkept i hc, hdata i hc]
      exact (if_pos hc).symm
  unfold WebFile.Write
  rw [hb]
  dsimp only
  by_cases hgrow : b.size < position + bytes.length
  · have hnew : max (sizeT (position + bytes.length)) (sizeT (f.file_size.getD 0))
        = position + bytes.length := by
      rw [hfile, Option.getD_some, sizeT_of_lt hroom, sizeT_of_lt (by omega)]
      omega
    have hlength : bytes.length ≠ 0 := by omega
    have hwritten : (c.write position bytes).size = position + bytes.length := by
      show (if bytes.length = 0 then c.size else max c.size (position + bytes.length)) = _
      rw [if_neg hlength]
      omega
    rw [if_pos hgrow, hnew]
    unfold WebFile.Truncate
    dsimp only
    rw [hb, Option.map_some, Option.map_some, sizeT_of_lt hroom, hposition]
    refine ⟨congrArg some hwritten.symm, _, rfl, ?_, fun i hi => ?_⟩
    · rw [hwritten]
      exact resize_size ..
    · rw [hwritten] at hi
      exact hput _ (fun j hj => resize_data u (by omega) (by omega)) i (by omega)
  · have hwritten : (c.write position bytes).size = c.size := by
      show (if bytes.length = 0 then c.size else max c.size (position + bytes.length)) = _
      split
      · rfl
      · omega
    rw [if_neg hgrow, hb, Option.map_some, hposition]
    refine ⟨hfile.trans (congrArg some hwritten.symm), _, rfl, hsize.trans hwritten.symm,
      fun i hi => ?_⟩
    rw [hwritten] at hi
    exact hput b.data (fun _ _ => rfl) i (by omega)

/-! ### Every step -/

/-- While the file is a buffer it holds what it should, and is uploaded if it should be. -/
structure WebFile.Agrees (f : WebFile) (w : Wanted) : Prop where
  contents : f.data_protocol = .BUFFER → f.Holds w.contents ∧ w.contents.size < 4294967296
  target : f.data_protocol = .BUFFER → f.buffered_http_file = w.target
  /-- Only a failed upload leaves the flag with another protocol. -/
  failed : f.data_protocol ≠ .BUFFER → f.buffered_http_file = true → remote f.data_protocol = true

structure Inv (x : State × Wanted) : Prop where
  file : ∀ f, x.1.file = some f → f.Agrees x.2
  uploads : x.1.uploads = x.2.uploads

theorem Inv.matches {x : State × Wanted} (hx : Inv x) : Matches x.1 x.2 :=
  ⟨fun f hf hbuffer => ((hx.file f hf).contents hbuffer).1, hx.uploads⟩

theorem inv_initial {default protocol : DataProtocol} {file_name : String}
    {data_url : Option String} {pins : Nat} (hprotocol : protocol ≠ .BUFFER) :
    Inv (.initial default file_name protocol data_url pins, .initial) := by
  refine ⟨fun f hf => ?_, rfl⟩
  obtain rfl := Option.some.inj hf
  exact ⟨fun h => absurd h hprotocol, fun h => absurd h hprotocol, fun _ h => nomatch h⟩

/-- A remote file gets a buffer only to be written to. -/
theorem write_of_buffer {file_name : String} {protocol : DataProtocol} {flags : BitVec 8}
    {found : Found} {size : Nat} {data : Memory}
    (hopened : openFile file_name protocol flags found = .buffer size data)
    (hremote : remote protocol = true) : FILE_FLAGS_WRITE flags = true := by
  by_contra hwrite
  have hwrite : FILE_FLAGS_WRITE flags = false := Bool.eq_false_iff.mpr hwrite
  cases protocol with
  | HTTP | S3 =>
    unfold openFile at hopened
    dsimp only at hopened
    rw [hwrite, Bool.and_false, if_neg Bool.false_ne_true, if_neg Bool.false_ne_true] at hopened
    split at hopened
    · cases hopened
    · split at hopened
      · cases hopened
      · cases hopened
  | BUFFER | NODE_FS | BROWSER_FILEREADER | BROWSER_FSACCESS => cases hremote

/-- A new handle is no change of the file. -/
theorem makeHandle_agrees (hx : s.uploads = w.uploads) (hf : f.Agrees w) :
    Inv (s.makeHandle f, w) := by
  refine ⟨fun f' hf' => ?_, hx⟩
  obtain rfl := Option.some.inj hf'
  exact ⟨hf.contents, hf.target, hf.failed⟩

theorem openFile_inv {flags : BitVec 8} {found : Found} (hx : Inv (s, w))
    (hok : s.Careful (.OpenFile flags found)) (hs : s.OpenFile flags found = some s') :
    Inv (s', w.step s (.OpenFile flags found)) := by
  obtain ⟨f, hfile, hs⟩ := Option.bind_eq_some_iff.mp hs
  have hagrees := hx.file f hfile
  have hw : w.step s (.OpenFile flags found) = w.openFile f flags := by
    show (s.file.map fun f => w.openFile f flags).getD w = _
    rw [hfile, Option.map_some, Option.getD_some]
  rw [hw]
  unfold Wanted.openFile
  split at hs
  next hbuffer =>
    rw [if_pos hbuffer]
    obtain rfl := Option.some.inj hs
    obtain ⟨hholds, hsize⟩ := hagrees.contents hbuffer
    split
    next =>
      obtain ⟨b, hb, _⟩ := hholds.2
      have hsome : f.data_buffer ≠ none := fun h => nomatch hb.symm.trans h
      exact makeHandle_agrees hx.uploads ⟨fun _ => ⟨holds_empty _ hsome, Nat.zero_lt_succ _⟩,
        hagrees.target, fun h => absurd hbuffer h⟩
    next => exact makeHandle_agrees hx.uploads hagrees
  next hbuffer =>
    rw [if_neg hbuffer]
    have hnew : FILE_FLAGS_FILE_CREATE_NEW flags = true := hok f hfile hbuffer
    split at hs
    next size data hopened =>
      dsimp only at hs
      rw [if_pos hnew] at hs
      obtain rfl := Option.some.inj hs
      refine makeHandle_agrees (w := { w with
        contents := .empty, target := remote f.data_protocol && FILE_FLAGS_WRITE flags })
        hx.uploads ⟨fun _ => ⟨holds_empty _ (fun h => nomatch h), Nat.zero_lt_succ _⟩, fun _ => ?_,
          fun h => absurd rfl h⟩
      show (f.buffered_http_file || (remote f.data_protocol && FILE_FLAGS_WRITE flags))
        = (remote f.data_protocol && FILE_FLAGS_WRITE flags)
      cases hflag : f.buffered_http_file with
      | false => rw [Bool.false_or]
      | true =>
        have hremote := hagrees.failed hbuffer hflag
        rw [hremote, write_of_buffer hopened hremote]
        rfl
    next => cases hs
    next => cases hs
    next => cases hs

/-- A file that stays the buffer it is. -/
theorem Inv.update {contents : Contents} {handles : HandleId → Option Nat} {f' : WebFile}
    (hx : Inv (s, w)) (hfile : s.file = some f) (hbuffer : f.data_protocol = .BUFFER)
    (hprotocol : f'.data_protocol = f.data_protocol)
    (hflag : f'.buffered_http_file = f.buffered_http_file)
    (hholds : f'.Holds contents) (hsize : contents.size < 4294967296) :
    Inv ({ s with file := some f', handles }, { w with contents }) := by
  refine ⟨fun g hg => ?_, hx.uploads⟩
  obtain rfl := Option.some.inj hg
  exact ⟨fun _ => ⟨hholds, hsize⟩, fun _ => hflag.trans ((hx.file f hfile).target hbuffer),
    fun h => absurd (hprotocol.trans hbuffer) h⟩

theorem withBuffer_eq {k : WebFile → Nat → State} (hs : s.withBuffer h k = some s') :
    ∃ f position, s.file = some f ∧ s.handles h = some position ∧ f.data_protocol = .BUFFER
      ∧ s' = k f position := by
  obtain ⟨f, hfile, hs⟩ := Option.bind_eq_some_iff.mp hs
  obtain ⟨position, hposition, hs⟩ := Option.bind_eq_some_iff.mp hs
  split at hs
  next hbuffer => exact ⟨f, position, hfile, hposition, hbuffer, (Option.some.inj hs).symm⟩
  next => cases hs

theorem write_protocol (f : WebFile) (position : Nat) (bytes : List UInt8) (u : Memory) :
    (f.Write position bytes u).data_protocol = f.data_protocol
      ∧ (f.Write position bytes u).buffered_http_file = f.buffered_http_file := by
  unfold WebFile.Write
  split
  · exact ⟨rfl, rfl⟩
  · dsimp only
    split
    · exact ⟨rfl, rfl⟩
    · exact ⟨rfl, rfl⟩

theorem write_inv {position : Nat} {bytes : List UInt8} {u : Memory} (hx : Inv (s, w))
    (hposition : s.handles h = some position)
    (hok : ∀ f, s.file = some f →
      position ≤ f.file_size.getD 0 ∧ position + bytes.length < 4294967296)
    (hs : s.Write h bytes u = some s') :
    Inv (s', { w with contents := w.contents.write position bytes }) := by
  obtain ⟨f, position', hfile, hposition', hbuffer, rfl⟩ := withBuffer_eq hs
  obtain rfl := Option.some.inj (hposition.symm.trans hposition')
  obtain ⟨hholds, hsize⟩ := (hx.file f hfile).contents hbuffer
  obtain ⟨hin, hroom⟩ := hok f hfile
  rw [hholds.1, Option.getD_some] at hin
  have hwritten : (w.contents.write position bytes).size < 4294967296 := by
    show (if bytes.length = 0 then w.contents.size else max w.contents.size _) < _
    split
    · exact hsize
    · exact max_lt hsize hroom
  obtain ⟨hprotocol, hflag⟩ := write_protocol f position bytes u
  exact hx.update hfile hbuffer hprotocol hflag (hholds.write u hin hroom) hwritten

/-- An empty list changes no contents. -/
theorem Inv.write_nil {location : Nat} (hx : Inv (s, w)) :
    Inv (s, { w with contents := w.contents.write location [] }) := by
  refine ⟨fun f hfile => ?_, hx.uploads⟩
  have hagrees := hx.file f hfile
  refine ⟨fun hbuffer => ?_, hagrees.target, hagrees.failed⟩
  obtain ⟨⟨hsize, b, hb, hbsize, hdata⟩, hlt⟩ := hagrees.contents hbuffer
  refine ⟨⟨hsize, b, hb, hbsize, fun i hi => (hdata i hi).trans ?_⟩, hlt⟩
  show _ = put w.contents.padded location [] i
  rw [put_nil]
  exact (if_pos hi).symm

theorem seek_inv {location : Nat} (hx : Inv (s, w)) (hs : s.Seek h location = some s') :
    Inv (s', w) ∧ s'.file = s.file ∧ s'.handles h = some location := by
  obtain ⟨_, _, rfl⟩ := Option.map_eq_some_iff.mp hs
  exact ⟨⟨hx.file, hx.uploads⟩, rfl, Function.update_self ..⟩

theorem writeAt_inv {location : Nat} {bytes : List UInt8} {u : Memory} (hx : Inv (s, w))
    (hok : s.Careful (.WriteAt h bytes location u)) (hs : s.WriteAt h bytes location u = some s') :
    Inv (s', w.step s (.WriteAt h bytes location u)) := by
  obtain ⟨s₁, hseek, hs⟩ := Option.bind_eq_some_iff.mp hs
  obtain ⟨hx₁, hfile, hposition⟩ := seek_inv hx hseek
  split at hs
  next hempty =>
    obtain rfl := Option.some.inj hs
    obtain rfl := List.eq_nil_of_length_eq_zero hempty
    exact hx₁.write_nil
  next hsome =>
    exact write_inv hx₁ hposition (fun f hf => hok f (hfile ▸ hf) hsome) hs

theorem truncate_inv {new_size : Nat} {u : Memory} (hx : Inv (s, w))
    (hok : s.Careful (.Truncate h new_size u)) (hs : s.Truncate h new_size u = some s') :
    Inv (s', w.step s (.Truncate h new_size u)) := by
  obtain ⟨f, _, hfile, _, hbuffer, rfl⟩ := withBuffer_eq hs
  obtain ⟨hholds, hsize⟩ := (hx.file f hfile).contents hbuffer
  have hin : new_size ≤ w.contents.size := by
    have hin := hok f hfile
    rwa [hholds.1, Option.getD_some] at hin
  exact hx.update hfile hbuffer rfl rfl (hholds.truncate u hin hsize) (Nat.lt_of_le_of_lt hin hsize)

/-- The file stays, and nothing is uploaded. -/
theorem inv_of_kept {handle_count : Nat} (hx : Inv (s, w)) (hfile : s.file = some f)
    (hkept : s'.file = some { f with handle_count }) (huploads : s'.uploads = s.uploads) :
    Inv (s', w) := by
  refine ⟨fun g hg => ?_, huploads.trans hx.uploads⟩
  obtain rfl := Option.some.inj (hkept.symm.trans hg)
  have hagrees := hx.file f hfile
  exact ⟨hagrees.contents, hagrees.target, hagrees.failed⟩

/-- What is uploaded is what the file holds. -/
theorem upload_body (closing : Closing) (hholds : f.Holds c) (hb : f.data_buffer = some b) :
    (writeFile .S3 b closing).2 = [segment c.bytes 0 c.size] := by
  obtain ⟨_, b', hb', hsize, hdata⟩ := hholds
  obtain rfl := Option.some.inj (hb.symm.trans hb')
  show [segment b.data 0 b.size] = _
  rw [hsize]
  congr 1
  exact segment_congr fun i _ hi => hdata i (by omega)

theorem close_inv {closing : Closing} (hx : Inv (s, w)) (hok : s.Careful (.Close h closing))
    (hs : s.Close h closing = some s') : Inv (s', w.step s (.Close h closing)) := by
  obtain ⟨f, hfile, hs⟩ := Option.bind_eq_some_iff.mp hs
  obtain ⟨_, _, hs⟩ := Option.map_eq_some_iff.mp hs
  have hagrees := hx.file f hfile
  unfold Wanted.step
  rw [hfile]
  dsimp only
  by_cases hlast : f.handle_count ≤ 1
  case neg =>
    rw [if_neg (fun h => hlast h.1)]
    rw [if_pos (by dsimp only; omega)] at hs
    subst hs
    exact inv_of_kept hx hfile rfl rfl
  rw [if_neg (by dsimp only; omega)] at hs
  by_cases hbuffer : f.data_protocol = .BUFFER
  case neg =>
    rw [if_neg (fun h => hbuffer h.2.1)]
    by_cases hlock : closing.have_file_lock = false
    · rw [if_pos hlock] at hs
      subst hs
      exact inv_of_kept hx hfile rfl rfl
    · rw [if_neg hlock, if_neg hbuffer] at hs
      subst hs
      exact ⟨fun _ hg => (nomatch hg), hx.uploads⟩
  cases hflag : f.buffered_http_file with
  | false =>
    have htarget : w.target = false := (hagrees.target hbuffer).symm.trans hflag
    rw [if_neg (fun h => Bool.false_ne_true (htarget.symm.trans h.2.2))]
    by_cases hlock : closing.have_file_lock = false
    · rw [if_pos hlock] at hs
      subst hs
      exact inv_of_kept hx hfile rfl rfl
    · rw [if_neg hlock, if_pos hbuffer, if_neg (by rw [hflag]; exact Bool.false_ne_true)] at hs
      subst hs
      exact inv_of_kept hx hfile rfl rfl
  | true =>
    have htarget : w.target = true := (hagrees.target hbuffer).symm.trans hflag
    obtain ⟨hlock, url, hurl, hs3⟩ := hok f hfile hlast hbuffer hflag
    obtain ⟨hholds, _⟩ := hagrees.contents hbuffer
    obtain ⟨b, hb, _⟩ := hholds.2
    have hbody := upload_body closing hholds hb
    rw [if_pos ⟨hlast, hbuffer, htarget⟩]
    rw [if_neg (by rw [hlock]; exact fun h => nomatch h), if_pos hbuffer, if_pos hflag] at hs
    dsimp only at hs
    rw [hurl, hb] at hs
    dsimp only at hs
    rw [hs3, hbody] at hs
    split at hs
    · subst hs
      exact ⟨fun _ hg => (nomatch hg), congrArg (· ++ _) hx.uploads⟩
    · subst hs
      refine ⟨fun g hg => ?_, congrArg (· ++ _) hx.uploads⟩
      obtain rfl := Option.some.inj hg
      exact ⟨fun h => (nomatch h), fun h => (nomatch h), fun _ _ => rfl⟩

theorem step_inv {x x' : State × Wanted} {e : Event} (hx : Inv x) (hok : Careful x e)
    (hs : stepBoth x e = some x') : Inv x' := by
  obtain ⟨s, w⟩ := x
  obtain ⟨s', hmoved, rfl⟩ := Option.map_eq_some_iff.mp hs
  cases e with
  | OpenFile flags found => exact openFile_inv hx hok hmoved
  | Write h bytes u =>
    obtain ⟨f, position, hfile, hposition, _⟩ := withBuffer_eq hmoved
    have hw : w.step s (.Write h bytes u)
        = { w with contents := w.contents.write position bytes } := by
      unfold Wanted.step
      dsimp only
      rw [hposition, Option.getD_some]
    exact hw ▸ write_inv hx hposition (fun f hf => hok f hf position hposition) hmoved
  | WriteAt h bytes location u => exact writeAt_inv hx hok hmoved
  | Seek h location => exact (seek_inv hx hmoved).1
  | Truncate h new_size u => exact truncate_inv hx hok hmoved
  | Close h closing => exact close_inv hx hok hmoved

/-- **Over every run in which buffers are truncated when they are new, grow by what is written to
their end, and are closed with the lock and to S3, a file that is a buffer holds what its handles
have written since it was empty, and that is what is uploaded when the last handle is closed.** -/
theorem uploads_written {default protocol : DataProtocol} {file_name : String}
    {data_url : Option String} {pins : Nat} {es : List Event} {x : State × Wanted}
    (hprotocol : protocol ≠ .BUFFER)
    (hrun : Run stepBoth Careful
      (.initial default file_name protocol data_url pins, .initial) es x) :
    Matches x.1 x.2 :=
  (hrun.invariant (inv_initial hprotocol) fun _ _ _ => step_inv).matches

/-- An S3 file is opened, with `FILE_FLAGS_WRITE` and another flag, written to, and closed. -/
def s3File (flag : BitVec 8) (bytes : List UInt8) : List Event :=
  [.OpenFile (2 ||| flag) {}, .Write 0 bytes (fun _ => 7), .Close 0 {}]

def s3Initial : State × Wanted :=
  (.initial .NODE_FS "s3://bucket/key" .S3 (some "s3://bucket/key") 0, .initial)

/-- With `FILE_FLAGS_FILE_CREATE_NEW`. -/
theorem uploads_written_twoBytes : ∃ x, Run stepBoth Careful s3Initial (s3File 16 [1, 2]) x
    ∧ x.1.uploads = [[1, 2]] ∧ Matches x.1 x.2 := by
  obtain ⟨x, hrun, huploads⟩ := Run.exists_of_execute
    (show (execute stepBoth Careful s3Initial (s3File 16 [1, 2])).map
      (fun x => decide (x.1.uploads = [[1, 2]])) = some true by decide +kernel)
  exact ⟨x, hrun, of_decide_eq_true huploads, uploads_written (by decide) hrun⟩

/-- With `FILE_FLAGS_FILE_CREATE`, and no bytes to write: the body has the byte that was in the
memory. -/
theorem uploaded_byte : ∃ x, Run stepBoth Always s3Initial (s3File 8 []) x
    ∧ x.1.uploads = [[0]] ∧ x.2.uploads = [[]] ∧ ¬ Matches x.1 x.2 := by
  obtain ⟨x, hrun, huploads⟩ := Run.exists_of_execute
    (show (execute stepBoth Always s3Initial (s3File 8 [])).map
      (fun x => decide (x.1.uploads = [[0]] ∧ x.2.uploads = [[]])) = some true by decide +kernel)
  obtain ⟨hbody, hwanted⟩ := of_decide_eq_true huploads
  refine ⟨x, hrun, hbody, hwanted, fun h => ?_⟩
  have hsame : [[(0 : UInt8)]] = [[]] := hbody.symm.trans (h.uploads.trans hwanted)
  cases hsame

end Haybarn.Runtime.WriteBuffers
