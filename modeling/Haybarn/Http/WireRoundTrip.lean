import Haybarn.Http.Ownership
import Haybarn.Http.WireFormat

/-!
# The wire format is read back

The parser recovers from the encoding of a response its status, its headers and its body, and
the producers in the heap write the same encoding (`wire_round_trip`), as long as the two
lengths fit their four bytes, the status is not 0 and `_malloc` has room. Outside of that the
format cannot keep what it is given: `wire_limits`. Over a run of the mailbox, the parser recovers
from the buffer of a call the response to its own request (`own_response_parsed`).

From the bottom up: the numbers, the producers, one line of the header text, the header text,
the whole buffer.
-/

namespace Haybarn.Http

open Haybarn.Lib

/-! ## Numbers -/

theorem littleEndian_two (n : Nat) :
    littleEndian 2 n = [UInt8.ofNat n, UInt8.ofNat (n / 256)] := by
  simp [littleEndian, List.range_succ]

theorem littleEndian_four (n : Nat) : littleEndian 4 n =
    [UInt8.ofNat n, UInt8.ofNat (n / 256), UInt8.ofNat (n / 65536),
      UInt8.ofNat (n / 16777216)] := by
  simp [littleEndian, List.range_succ]

@[simp] theorem length_littleEndian (k n : Nat) : (littleEndian k n).length = k := by
  rw [littleEndian, List.length_map, List.length_range]

/-- A shift with a sign keeps the bits below it. -/
theorem shiftByte_eq {n k : Nat} (hk : k ≤ 24) : shiftByte n k = UInt8.ofNat (n / 2 ^ k) := by
  unfold shiftByte
  refine UInt8.toNat_inj.mp ?_
  rw [UInt8.toNat_ofNat', UInt8.toNat_ofNat']
  refine Nat.eq_of_testBit_eq fun i => ?_
  rw [Nat.testBit_mod_two_pow, Nat.testBit_mod_two_pow, Nat.testBit_div_two_pow]
  by_cases hi : i < 8
  · have hmask : (0xFF#32).getLsbD i = true := by
      rw [BitVec.getLsbD_ofNat, show (0xFF : Nat) = 2 ^ 8 - 1 from rfl,
        Nat.testBit_two_pow_sub_one]
      simp only [hi, decide_true, Bool.and_true, decide_eq_true_eq]
      omega
    have hlow : i + k < 32 := by omega
    have hlow' : k + i < 32 := by omega
    have hin : ¬ 32 ≤ i := by omega
    rw [BitVec.testBit_toNat, BitVec.getLsbD_and, hmask, BitVec.getLsbD_sshiftRight,
      if_pos hlow', BitVec.getLsbD_ofNat, Nat.add_comm k i]
    simp [hlow, hin]
  · simp [hi]

theorem or_shiftLeft {a b k : Nat} (h : a < 2 ^ k) : a ||| (b <<< k) = a + b * 2 ^ k := by
  rw [Nat.or_comm, ← Nat.shiftLeft_add_eq_or_of_lt h, Nat.shiftLeft_eq, Nat.add_comm]

/-- Two bytes are a number below 65536. -/
theorem load_two {m : Memory} {p n : Nat} (h : m.Holds p (littleEndian 2 n)) :
    (m.byte p).toNat ||| ((m.byte (p + 1)).toNat <<< 8) = n % 65536 := by
  rw [littleEndian_two] at h
  have h0 : m.byte p = UInt8.ofNat n := h 0 (by simp)
  have h1 : m.byte (p + 1) = UInt8.ofNat (n / 256) := h 1 (by simp)
  rw [h0, h1, UInt8.toNat_ofNat', UInt8.toNat_ofNat', or_shiftLeft (Nat.mod_lt _ (by decide))]
  omega

theorem loadLength_eq {m : Memory} {p n : Nat} (h : m.Holds p (littleEndian 4 n)) :
    loadLength m p = n % 4294967296 := by
  rw [littleEndian_four] at h
  have h0 : m.byte p = UInt8.ofNat n := h 0 (by simp)
  have h1 : m.byte (p + 1) = UInt8.ofNat (n / 256) := h 1 (by simp)
  have h2 : m.byte (p + 2) = UInt8.ofNat (n / 65536) := h 2 (by simp)
  have h3 : m.byte (p + 3) = UInt8.ofNat (n / 16777216) := h 3 (by simp)
  have hb : ∀ k, (UInt8.ofNat k).toNat < 256 := fun k => (UInt8.ofNat k).toNat_lt
  unfold loadLength
  rw [h0, h1, h2, h3]
  have hb0 := hb n
  have hb1 := hb (n / 256)
  have hb2 := hb (n / 65536)
  rw [@or_shiftLeft _ _ 8 (by omega), @or_shiftLeft _ _ 16 (by omega),
    @or_shiftLeft _ _ 24 (by omega)]
  simp only [UInt8.toNat_ofNat']
  omega

/-! ## The producers -/

theorem storeByte_eq {m : Memory} {o : Nat} {b : UInt8} (h : o < m.size) :
    storeByte m o b = m.write o [b] := if_pos h

@[simp] theorem storeByte_size {m : Memory} {o : Nat} {b : UInt8} :
    (storeByte m o b).size = m.size := by
  unfold storeByte
  split <;> rfl

@[simp] theorem storeLength_size {m : Memory} {o n : Nat} : (storeLength m o n).size = m.size := by
  unfold storeLength
  simp only [storeByte_size]

theorem setBytes_eq {m : Memory} {o : Nat} {bs : List UInt8} (h : o + bs.length ≤ m.size) :
    setBytes m o bs = some (m.write o bs) := if_pos h

/-- Leaving out an empty block changes nothing. -/
theorem setNonempty_eq {m : Memory} {o : Nat} {bs : List UInt8} (h : o + bs.length ≤ m.size) :
    setNonempty m o bs = some (m.write o bs) := by
  unfold setNonempty
  split
  · exact setBytes_eq h
  next hz =>
    have hnil : bs = [] := List.eq_nil_of_length_eq_zero (by omega)
    rw [hnil, Memory.write_nil]

theorem storeLength_eq {m : Memory} {o n : Nat} (h : o + 4 ≤ m.size) :
    storeLength m o n = m.write o (littleEndian 4 n) := by
  unfold storeLength
  dsimp only
  rw [storeByte_eq (by simp only [storeByte_size]; omega),
    storeByte_eq (by simp only [storeByte_size]; omega),
    storeByte_eq (by simp only [storeByte_size]; omega), storeByte_eq (by omega),
    littleEndian_four, shiftByte_eq (by omega), shiftByte_eq (by omega), shiftByte_eq (by omega),
    shiftByte_eq (by omega)]
  have h1 := m.write_write o [UInt8.ofNat (n / 2 ^ 0)] [UInt8.ofNat (n / 2 ^ 8)]
  have h2 := m.write_write o [UInt8.ofNat (n / 2 ^ 0), UInt8.ofNat (n / 2 ^ 8)]
    [UInt8.ofNat (n / 2 ^ 16)]
  have h3 := m.write_write o
    [UInt8.ofNat (n / 2 ^ 0), UInt8.ofNat (n / 2 ^ 8), UInt8.ofNat (n / 2 ^ 16)]
    [UInt8.ofNat (n / 2 ^ 24)]
  simp only [List.length_cons, List.length_nil, List.cons_append, List.nil_append] at h1 h2 h3
  rw [h1, h2, h3]
  simp

theorem length_encode (status : Nat) (headers : String) (body : List UInt8) :
    (encode status headers body).length = 2 + 4 + (textEncode headers).length + 4 + body.length := by
  unfold encode
  simp only [List.length_append, length_littleEndian]

/-- **The producers write the encoding**: where `_malloc` has given them, and nothing else. -/
theorem respond_eq {xhr : Xhr} {heap m : Memory} {malloc : Nat → Nat × Memory} {buf : Nat}
    (hstatus : xhr.status ≠ 0)
    (hmalloc : malloc (encode xhr.status (xhr.headers.getD "") (xhr.response.getD [])).length =
      (buf, m))
    (hbuf : buf ≠ 0)
    (hroom : buf + (encode xhr.status (xhr.headers.getD "") (xhr.response.getD [])).length ≤
      m.size) :
    respond xhr heap malloc = some (buf,
      m.write buf (encode xhr.status (xhr.headers.getD "") (xhr.response.getD []))) := by
  rw [length_encode] at hmalloc hroom
  have hencode : encode xhr.status (xhr.headers.getD "") (xhr.response.getD []) =
      littleEndian 2 xhr.status ++ littleEndian 4 (textEncode (xhr.headers.getD "")).length ++
        textEncode (xhr.headers.getD "") ++ littleEndian 4 (xhr.response.getD []).length ++
          xhr.response.getD [] := rfl
  unfold respond
  dsimp only
  rw [if_neg hstatus, hmalloc]
  dsimp only
  rw [if_neg hbuf, storeLength_eq (by simp only [storeByte_size]; omega),
    storeByte_eq (by simp only [storeByte_size]; omega), storeByte_eq (by omega),
    setNonempty_eq (by simp only [Memory.write_size]; omega)]
  dsimp only [bind, Option.bind]
  rw [storeLength_eq (by simp only [Memory.write_size]; omega),
    setNonempty_eq (by simp only [Memory.write_size]; omega)]
  -- each block begins where the one before it ends
  have hstatus2 : (m.write buf [shiftByte xhr.status 0]).write (buf + 1)
      [shiftByte xhr.status 8] = m.write buf (littleEndian 2 xhr.status) := by
    have h1 := m.write_write buf [shiftByte xhr.status 0] [shiftByte xhr.status 8]
    simp only [List.length_cons, List.length_nil, List.cons_append, List.nil_append] at h1
    rw [h1, littleEndian_two, shiftByte_eq (by omega), shiftByte_eq (by omega)]
    simp
  have hlen : ∀ (xs ys : List UInt8) (o : Nat), o = buf + xs.length →
      (m.write buf xs).write o ys = m.write buf (xs ++ ys) := by
    intro xs ys o ho
    rw [ho, Memory.write_write]
  rw [hstatus2, hlen _ _ _ (by rw [length_littleEndian]),
    hlen _ _ _ (by simp only [List.length_append, length_littleEndian]),
    hlen _ _ _ (by simp only [List.length_append, length_littleEndian]; omega),
    hlen _ _ _ (by simp only [List.length_append, length_littleEndian]; omega), hencode]
  rfl

/-! ## One header line -/

/-- `std::isspace`, of a character. -/
def CharSpace (c : Char) : Prop := c.toNat = 32 ∨ 9 ≤ c.toNat ∧ c.toNat ≤ 13

instance (c : Char) : Decidable (CharSpace c) := inferInstanceAs (Decidable (_ ∨ _ ∧ _))

def TextTrimmed (s : String) : Prop :=
  (∀ c ∈ s.toList.head?, ¬ CharSpace c) ∧ ∀ c ∈ s.toList.getLast?, ¬ CharSpace c

instance (s : String) : Decidable (TextTrimmed s) :=
  @instDecidableAnd _ _ (Option.decidableForallMem _) (Option.decidableForallMem _)

/-- A header that has a line of its own. -/
structure HeaderOk (h : String × String) : Prop where
  name_ne : h.1 ≠ ""
  name_trimmed : TextTrimmed h.1
  value_trimmed : TextTrimmed h.2
  name_chars : ∀ c ∈ h.1.toList, c ≠ ':' ∧ c ≠ '\r' ∧ c ≠ '\n'
  value_chars : ∀ c ∈ h.2.toList, c ≠ '\r' ∧ c ≠ '\n'

instance (h : String × String) : Decidable (HeaderOk h) :=
  have : Decidable (∀ c ∈ h.1.toList, c ≠ ':' ∧ c ≠ '\r' ∧ c ≠ '\n') := List.decidableBAll _ _
  have : Decidable (∀ c ∈ h.2.toList, c ≠ '\r' ∧ c ≠ '\n') := List.decidableBAll _ _
  decidable_of_iff (h.1 ≠ "" ∧ TextTrimmed h.1 ∧ TextTrimmed h.2 ∧
      (∀ c ∈ h.1.toList, c ≠ ':' ∧ c ≠ '\r' ∧ c ≠ '\n') ∧
      ∀ c ∈ h.2.toList, c ≠ '\r' ∧ c ≠ '\n')
    ⟨fun ⟨hne, hname, hvalue, hnc, hvc⟩ => ⟨hne, hname, hvalue, hnc, hvc⟩,
      fun h => ⟨h.name_ne, h.name_trimmed, h.value_trimmed, h.name_chars, h.value_chars⟩⟩

/-- The line of a header. -/
def lineBytes (h : String × String) : List UInt8 := textEncode h.1 ++ 58 :: 32 :: textEncode h.2

theorem textEncode_line (h : String × String) :
    textEncode (h.1 ++ ": " ++ h.2) = lineBytes h := by
  rw [textEncode_append, textEncode_append, show textEncode ": " = [58, 32] from rfl,
    List.append_assoc]
  rfl

theorem lt_of_isSpace {b : UInt8} (h : isSpace b) : b.toNat < 128 := by
  obtain rfl | ⟨-, hle⟩ := h
  · decide
  · have hle' : b.toNat ≤ (13 : UInt8).toNat := UInt8.le_iff_toNat_le.mp hle
    exact Nat.lt_of_le_of_lt hle' (by decide)

theorem charSpace_of_isSpace {b : UInt8} {c : Char} (h : isSpace b) (hc : c.toNat = b.toNat) :
    CharSpace c := by
  unfold CharSpace
  rw [hc]
  obtain rfl | ⟨hge, hle⟩ := h
  · exact .inl rfl
  · exact .inr ⟨UInt8.le_iff_toNat_le.mp hge, UInt8.le_iff_toNat_le.mp hle⟩

theorem trimmed_textEncode {s : String} (h : TextTrimmed s) : Trimmed (textEncode s) := by
  constructor
  · intro b hb hspace
    obtain ⟨c, hc, heq⟩ := head_textEncode hb (lt_of_isSpace hspace)
    exact h.1 c hc (charSpace_of_isSpace hspace heq)
  · intro b hb hspace
    obtain ⟨c, hc, heq⟩ := getLast_textEncode hb (lt_of_isSpace hspace)
    exact h.2 c hc (charSpace_of_isSpace hspace heq)

/-- A text without some ASCII character is encoded without its byte. -/
theorem not_mem_textEncode {s : String} {d : Char} {b : UInt8} (hb : b.toNat < 128)
    (hd : d.toNat = b.toNat) (h : ∀ c ∈ s.toList, c ≠ d) : b ∉ textEncode s := by
  intro hmem
  obtain ⟨c, hc, heq⟩ := mem_textEncode hmem hb
  refine h c hc (Char.ext (UInt32.toNat_inj.mp ?_))
  exact heq.trans hd.symm

theorem HeaderOk.colon_not_mem {h : String × String} (hok : HeaderOk h) :
    (58 : UInt8) ∉ textEncode h.1 :=
  @not_mem_textEncode _ ':' _ (by decide) rfl fun c hc => (hok.name_chars c hc).1

/-- No byte of the line belongs to the line separator. -/
theorem HeaderOk.line {h : String × String} (hok : HeaderOk h) :
    lineBytes h ≠ [] ∧ ∀ b ∈ lineBytes h, b ∉ ([13, 10] : List UInt8) := by
  have hcr1 : (13 : UInt8) ∉ textEncode h.1 :=
    @not_mem_textEncode _ '\r' _ (by decide) rfl fun c hc => (hok.name_chars c hc).2.1
  have hlf1 : (10 : UInt8) ∉ textEncode h.1 :=
    @not_mem_textEncode _ '\n' _ (by decide) rfl fun c hc => (hok.name_chars c hc).2.2
  have hcr2 : (13 : UInt8) ∉ textEncode h.2 :=
    @not_mem_textEncode _ '\r' _ (by decide) rfl fun c hc => (hok.value_chars c hc).1
  have hlf2 : (10 : UInt8) ∉ textEncode h.2 :=
    @not_mem_textEncode _ '\n' _ (by decide) rfl fun c hc => (hok.value_chars c hc).2
  constructor
  · exact List.append_ne_nil_of_left_ne_nil (textEncode_ne_nil hok.name_ne) _
  · intro b hb hsep
    simp only [List.mem_cons, List.not_mem_nil, or_false] at hsep
    unfold lineBytes at hb
    simp only [List.mem_append, List.mem_cons] at hb
    obtain rfl | rfl := hsep
    · obtain hb | hb | hb | hb := hb
      · exact hcr1 hb
      · exact absurd hb (by decide)
      · exact absurd hb (by decide)
      · exact hcr2 hb
    · obtain hb | hb | hb | hb := hb
      · exact hlf1 hb
      · exact absurd hb (by decide)
      · exact absurd hb (by decide)
      · exact hlf2 hb

theorem splitColon_append {key val : List UInt8} (h : 58 ∉ key) :
    splitColon (key ++ 58 :: val) = some (key, val) := by
  have hne : ∀ b ∈ key, (b != 58) = true := by
    intro b hb
    refine bne_iff_ne.mpr fun heq => ?_
    exact h (heq ▸ hb)
  unfold splitColon
  rw [List.dropWhile_append_of_pos hne, List.takeWhile_append_of_pos hne,
    List.dropWhile_cons_of_neg (by decide), List.takeWhile_cons_of_neg (by decide),
    List.append_nil]

variable {util : HttpUtil}

theorem trim_self (laws : util.Laws) {s : List UInt8} (h : Trimmed s) : util.Trim s = s := by
  have htrim := laws.trim [] s [] nofun h
  rwa [List.nil_append, List.append_nil] at htrim

/-- The line of a header inserts the header. -/
theorem insertLine_line (laws : util.Laws) (headers : util.Headers) {h : String × String}
    (hok : HeaderOk h) : insertLine util headers (lineBytes h) =
      util.Insert headers (textEncode h.1) (textEncode h.2) := by
  have hkey := trim_self laws (trimmed_textEncode hok.name_trimmed)
  have hval := laws.trim [32] (textEncode h.2) []
    (List.forall_mem_singleton.mpr (by decide))
    (trimmed_textEncode hok.value_trimmed)
  rw [List.append_nil, List.singleton_append] at hval
  unfold insertLine lineBytes
  rw [splitColon_append hok.colon_not_mem]
  dsimp only
  rw [hkey, hval, if_pos (textEncode_ne_nil hok.name_ne)]

/-! ## The header text -/

/-- What the headers say for a name. -/
def lookup (headers : List (String × String)) (key : List UInt8) : Option (List UInt8) :=
  (headers.find? fun h => SameName (textEncode h.1) key).map fun h => textEncode h.2

/-- Headers that the format can carry: each with a line of its own, under different names. -/
structure HeadersOk (headers : List (String × String)) : Prop where
  each : ∀ h ∈ headers, HeaderOk h
  distinct : headers.Pairwise fun g h => ¬ SameName (textEncode g.1) (textEncode h.1)

theorem textEncode_headerText (headers : List (String × String)) :
    textEncode (headerText headers) = [13, 10].intercalate (headers.map lineBytes) := by
  unfold headerText
  rw [textEncode_intercalate, List.map_map, show textEncode "\r\n" = [13, 10] from rfl]
  congr 1
  exact List.map_congr_left fun h _ => textEncode_line h

theorem split_headerText (laws : util.Laws) {headers : List (String × String)}
    (hok : HeadersOk headers) (hne : headers ≠ []) :
    util.Split (textEncode (headerText headers)) [13, 10] = headers.map lineBytes := by
  rw [textEncode_headerText]
  refine laws.split [13, 10] (headers.map lineBytes) (by decide) (by simpa using hne) ?_
  intro piece hpiece
  obtain ⟨h, hmem, rfl⟩ := List.mem_map.mp hpiece
  exact (hok.each h hmem).line

/-- Inserting headers one after the other: a name has the value of its header, or what it had
before. -/
theorem find_insertLines (laws : util.Laws) {headers : List (String × String)}
    (hok : HeadersOk headers) (acc : util.Headers)
    (hnew : ∀ h ∈ headers, util.find acc (textEncode h.1) = none) (key : List UInt8) :
    util.find ((headers.map lineBytes).foldl (insertLine util) acc) key =
      (lookup headers key).or (util.find acc key) := by
  induction headers generalizing acc with
  | nil => rfl
  | cons h rest ih =>
    obtain ⟨hfirst, hrest⟩ := List.pairwise_cons.mp hok.distinct
    have hokrest : HeadersOk rest := ⟨fun g hg => hok.each g (List.mem_cons_of_mem _ hg), hrest⟩
    have hinsert := laws.find_insert acc (textEncode h.1) (textEncode h.2)
    rw [List.map_cons, List.foldl_cons, insertLine_line laws acc (hok.each h List.mem_cons_self),
      ih hokrest, hinsert key (hnew h List.mem_cons_self)]
    · unfold lookup
      rw [List.find?_cons]
      by_cases hsame : SameName (textEncode h.1) key
      · rw [if_pos hsame, decide_eq_true hsame]
        -- no later header has this name
        have hnone : rest.find? (fun g => decide (SameName (textEncode g.1) key)) = none := by
          rw [List.find?_eq_none]
          intro g hg hgkey
          exact hfirst g hg (hsame.trans (of_decide_eq_true hgkey).symm)
        rw [hnone]
        rfl
      · rw [if_neg hsame, decide_eq_false hsame]
    · intro g hg
      rw [hinsert _ (hnew h List.mem_cons_self), if_neg (hfirst g hg)]
      exact hnew g (List.mem_cons_of_mem _ hg)

theorem foldl_insertLine_nil (lines : List (List UInt8)) (acc : util.Headers)
    (h : ∀ line ∈ lines, line = []) : lines.foldl (insertLine util) acc = acc := by
  induction lines generalizing acc with
  | nil => rfl
  | cons line rest ih =>
    rw [List.foldl_cons, h line List.mem_cons_self]
    exact ih acc fun l hl => h l (List.mem_cons_of_mem _ hl)

/-- The header text is read back. -/
theorem find_parsed (laws : util.Laws) {headers : List (String × String)}
    (hok : HeadersOk headers) (key : List UInt8) :
    util.find ((util.Split (textEncode (headerText headers)) [13, 10]).foldl (insertLine util)
      util.empty) key = lookup headers key := by
  by_cases hne : headers = []
  · subst hne
    rw [show textEncode (headerText []) = [] from rfl,
      foldl_insertLine_nil _ _ (laws.split_nil [13, 10])]
    exact laws.find_empty key
  · rw [split_headerText laws hok hne,
      find_insertLines laws hok _ (fun h _ => laws.find_empty _), laws.find_empty, Option.or_none]

/-! ## The whole buffer -/

/-- The parser has recovered the status, the headers and the body. -/
structure Recovered (res : HTTPResponse util) (status : Nat) (headers : List (String × String))
    (body : List UInt8) : Prop where
  status : res.status = util.ToStatusCode status
  headers : ∀ key, util.find res.headers key = lookup headers key
  body : res.body = body

/-- The parser reads the encoding back, wherever it stands in the memory. -/
theorem parse_encode (laws : util.Laws) {m : Memory} {buf status : Nat}
    {headers : List (String × String)} {body : List UInt8} (hstatus : status < 65536)
    (hok : HeadersOk headers) (htext : (textEncode (headerText headers)).length < 4294967296)
    (hbody : body.length < 4294967296) (hbuf : buf ≠ 0)
    (h : m.Holds buf (encode status (headerText headers) body)) :
    Recovered (ParseWasmResponse util m buf) status headers body := by
  unfold encode at h
  dsimp only at h
  simp only [Memory.holds_append, List.length_append, length_littleEndian] at h
  obtain ⟨⟨⟨⟨hst, hlen⟩, hhead⟩, hblen⟩, hbytes⟩ := h
  rw [show buf + (2 + 4) = buf + 2 + 4 by omega] at hhead
  rw [show buf + (2 + 4 + (textEncode (headerText headers)).length) =
    buf + 2 + 4 + (textEncode (headerText headers)).length by omega] at hblen
  rw [show buf + (2 + 4 + (textEncode (headerText headers)).length + 4) =
    buf + 2 + 4 + (textEncode (headerText headers)).length + 4 by omega] at hbytes
  have hheadLen : loadLength m (buf + 2) = (textEncode (headerText headers)).length := by
    rw [loadLength_eq hlen, Nat.mod_eq_of_lt htext]
  have hbodyLen : loadLength m (buf + 2 + 4 + (textEncode (headerText headers)).length) =
      body.length := by
    rw [loadLength_eq hblen, Nat.mod_eq_of_lt hbody]
  unfold ParseWasmResponse
  rw [if_neg hbuf]
  dsimp only
  rw [hheadLen, hbodyLen, hhead.read, load_two hst, Nat.mod_eq_of_lt hstatus]
  refine ⟨rfl, find_parsed laws hok, ?_⟩
  show (if body.length > 0 then m.read _ body.length else []) = body
  split
  · exact hbytes.read
  next hz => exact (List.eq_nil_of_length_eq_zero (by omega)).symm

/-- `_malloc` has given the producers a block for the response. -/
structure Granted (xhr : Xhr) (malloc : Nat → Nat × Memory) (buf : Nat) (m : Memory) : Prop where
  ptr : malloc (encode xhr.status (xhr.headers.getD "") (xhr.response.getD [])).length = (buf, m)
  ne_zero : buf ≠ 0
  room : buf + (encode xhr.status (xhr.headers.getD "") (xhr.response.getD [])).length ≤ m.size

/-- **The wire format round-trips.** The parser recovers a response from its encoding, as long
as the header text and the body are shorter than 2^32 bytes; and both producers, for a status
other than 0 and with a block from `_malloc`, write the very encoding that the helper makes. -/
theorem wire_round_trip (util : HttpUtil) (laws : util.Laws) :
    (∀ m buf status headers body, status < 65536 → HeadersOk headers →
      (textEncode (headerText headers)).length < 4294967296 → body.length < 4294967296 →
      buf ≠ 0 → m.Holds buf (encode status (headerText headers) body) →
      Recovered (ParseWasmResponse util m buf) status headers body) ∧
    ∀ web send xhr heap malloc buf m url method headers payload, xhr.status ≠ 0 →
      Granted xhr malloc buf m →
      (send ⟨web.decode url, web.decode method, headers.foldl (addHeader web) [], none⟩ =
          some xhr →
        wasm_xhr_no_body web (some send) heap malloc url method headers = some (buf,
          m.write buf (encode xhr.status (xhr.headers.getD "") (xhr.response.getD [])))) ∧
      (send ⟨web.decode url, web.decode method, headers.foldl (addHeader web) [],
          some payload⟩ = some xhr →
        wasm_xhr_with_body web (some send) heap malloc url method headers payload = some (buf,
          m.write buf (encode xhr.status (xhr.headers.getD "") (xhr.response.getD [])))) := by
  constructor
  · intro m buf status headers body hstatus hok htext hbody hbuf h
    exact parse_encode laws hstatus hok htext hbody hbuf h
  · intro web send xhr heap malloc buf m url method headers payload hstatus hgrant
    have hrespond : respond xhr heap malloc = some (buf,
        m.write buf (encode xhr.status (xhr.headers.getD "") (xhr.response.getD []))) :=
      respond_eq hstatus hgrant.ptr hgrant.ne_zero hgrant.room
    constructor
    · intro hsend
      unfold wasm_xhr_no_body
      dsimp only
      rw [hsend]
      exact hrespond
    · intro hsend
      unfold wasm_xhr_with_body
      dsimp only
      rw [hsend]
      exact hrespond

/-! ## An instance of the externals -/

def emit (acc : List UInt8) : List (List UInt8) := if acc = [] then [] else [acc.reverse]

/-- Split a text at a separator, the first bytes of which are skipped. Empty pieces are left
out. -/
def splitGo (sep : List UInt8) : Nat → List UInt8 → List UInt8 → List (List UInt8)
  | _, acc, [] => emit acc
  | skip + 1, acc, _ :: bs => splitGo sep skip acc bs
  | 0, acc, b :: bs =>
    if sep.isPrefixOf (b :: bs) then emit acc ++ splitGo sep (sep.length - 1) [] bs
    else splitGo sep 0 (b :: acc) bs

theorem splitGo_skip (sep skipped acc rest : List UInt8) :
    splitGo sep skipped.length acc (skipped ++ rest) = splitGo sep 0 acc rest := by
  induction skipped with
  | nil => rfl
  | cons b bs ih => exact ih

theorem splitGo_sep (s : UInt8) (ss acc rest : List UInt8) :
    splitGo (s :: ss) 0 acc (s :: ss ++ rest) = emit acc ++ splitGo (s :: ss) 0 [] rest := by
  have hpre : (s :: ss).isPrefixOf (s :: (ss ++ rest)) = true := by
    rw [List.isPrefixOf_iff_prefix]
    exact List.prefix_append (s :: ss) rest
  rw [List.cons_append, splitGo, if_pos hpre]
  exact congrArg _ (splitGo_skip (s :: ss) ss [] rest)

theorem splitGo_piece (s : UInt8) (ss piece acc rest : List UInt8) (h : s ∉ piece) :
    splitGo (s :: ss) 0 acc (piece ++ rest) = splitGo (s :: ss) 0 (piece.reverse ++ acc) rest := by
  induction piece generalizing acc with
  | nil => rfl
  | cons b bs ih =>
    have hne : ¬ (s :: ss).isPrefixOf (b :: (bs ++ rest)) = true := by
      intro hpre
      rw [List.isPrefixOf_cons_cons, Bool.and_eq_true, beq_iff_eq] at hpre
      exact h (hpre.1 ▸ List.mem_cons_self)
    rw [List.cons_append, splitGo, if_neg hne, ih _ fun hmem => h (List.mem_cons_of_mem _ hmem),
      List.reverse_cons, List.append_assoc]
    rfl

theorem splitGo_intercalate (s : UInt8) (ss : List UInt8) (pieces : List (List UInt8))
    (h : ∀ piece ∈ pieces, piece ≠ [] ∧ s ∉ piece) :
    splitGo (s :: ss) 0 [] ((s :: ss).intercalate pieces) = pieces := by
  have hemit : ∀ piece : List UInt8, piece ≠ [] → emit (piece.reverse ++ []) = [piece] := by
    intro piece hne
    unfold emit
    rw [List.append_nil, if_neg (by simpa using hne), List.reverse_reverse]
  induction pieces with
  | nil => rfl
  | cons piece rest ih =>
    obtain ⟨hne, hs⟩ := h piece List.mem_cons_self
    have hrest := ih fun p hp => h p (List.mem_cons_of_mem _ hp)
    cases rest with
    | nil =>
      have hend := splitGo_piece s ss piece [] [] hs
      rw [List.append_nil] at hend
      rw [List.intercalate_singleton, hend]
      exact hemit piece hne
    | cons next more =>
      rw [List.intercalate_cons_cons, List.append_assoc, splitGo_piece s ss piece [] _ hs,
        splitGo_sep, hemit piece hne, hrest]
      rfl

theorem dropWhile_append_of_head {p : UInt8 → Bool} {before s : List UInt8}
    (hbefore : ∀ b ∈ before, p b = true) (hs : ∀ b ∈ s.head?, p b = false) :
    (before ++ s).dropWhile p = s := by
  rw [List.dropWhile_append_of_pos hbefore]
  cases s with
  | nil => rfl
  | cons b bs => exact List.dropWhile_cons_of_neg (by rw [hs b rfl]; exact Bool.false_ne_true)

/-- Headers as a list of pairs. -/
abbrev sampleUtil : HttpUtil where
  Status := Nat
  Headers := List (List UInt8 × List UInt8)
  NotFound_404 := 404
  ToStatusCode n := n
  Split s sep := if splitGo sep 0 [] s = [] then [s] else splitGo sep 0 [] s
  Trim s :=
    ((s.dropWhile fun b => decide (isSpace b)).reverse.dropWhile fun b =>
      decide (isSpace b)).reverse
  empty := []
  Insert headers key val := if headers.any (fun h => SameName h.1 key) then headers
    else headers ++ [(key, val)]
  find headers key := (headers.find? fun h => SameName h.1 key).map (·.2)

/-- A map of headers under names that ignore case, and the splitting and trimming of DuckDB. -/
theorem sampleUtil_laws : sampleUtil.Laws where
  split sep pieces hsep hpieces h := by
    cases sep with
    | nil => exact absurd rfl hsep
    | cons s ss =>
      have hsplit := splitGo_intercalate s ss pieces fun piece hp =>
        ⟨(h piece hp).1, fun hmem => (h piece hp).2 s hmem List.mem_cons_self⟩
      show (if _ = [] then _ else _) = pieces
      rw [hsplit, if_neg hpieces]
  split_nil sep piece h := by
    have hnil : splitGo sep 0 [] [] = [] := by cases sep <;> rfl
    have hpiece : piece ∈ if splitGo sep 0 [] [] = [] then [[]] else splitGo sep 0 [] [] := h
    rw [if_pos hnil] at hpiece
    exact List.mem_singleton.mp hpiece
  trim before s after hspace hs := by
    have hbefore : ∀ b ∈ before, decide (isSpace b) = true := fun b hb =>
      decide_eq_true (hspace b (List.mem_append_left _ hb))
    have hafter : ∀ b ∈ after.reverse, decide (isSpace b) = true := fun b hb =>
      decide_eq_true (hspace b (List.mem_append_right _ (List.mem_reverse.mp hb)))
    show ((List.dropWhile _ (before ++ s ++ after)).reverse.dropWhile _).reverse = s
    cases hcase : s with
    | nil =>
      have hall : ∀ b ∈ before ++ after, decide (isSpace b) = true := fun b hb =>
        decide_eq_true (hspace b hb)
      have hdrop := @dropWhile_append_of_head _ (before ++ after) [] hall nofun
      rw [List.append_nil] at hdrop
      rw [List.append_nil, hdrop]
      rfl
    | cons b bs =>
      rw [← hcase]
      have hhead : ∀ c ∈ (s ++ after).head?, decide (isSpace c) = false := by
        intro c hc
        rw [hcase] at hc
        exact decide_eq_false (hs.1 c (by rw [hcase]; exact hc))
      have hlast : ∀ c ∈ s.reverse.head?, decide (isSpace c) = false := by
        intro c hc
        rw [List.head?_reverse] at hc
        exact decide_eq_false (hs.2 c hc)
      rw [List.append_assoc, dropWhile_append_of_head hbefore hhead, List.reverse_append,
        dropWhile_append_of_head hafter hlast, List.reverse_reverse]
  find_empty key := rfl
  find_insert headers key val key' h := by
    have hnone : headers.find? (fun h => decide (SameName h.1 key)) = none :=
      Option.map_eq_none_iff.mp h
    have hany : ¬ headers.any (fun h => decide (SameName h.1 key)) = true := by
      intro hany
      obtain ⟨g, hg, hsame⟩ := List.any_eq_true.mp hany
      exact List.find?_eq_none.mp hnone g hg hsame
    show Option.map _ (List.find? _ (if _ then headers else headers ++ [(key, val)])) = _
    rw [if_neg hany, List.find?_append]
    by_cases hsame : SameName key key'
    · have hnone' : headers.find? (fun h => decide (SameName h.1 key')) = none := by
        rw [List.find?_eq_none] at hnone ⊢
        intro g hg hkey'
        exact hnone g hg (decide_eq_true ((of_decide_eq_true hkey').trans hsame.symm))
      rw [if_pos hsame, hnone', List.find?_cons, decide_eq_true hsame]
      rfl
    · rw [if_neg hsame, List.find?_cons, decide_eq_false hsame, List.find?_nil, Option.or_none]

/-- A response with two headers, one of them empty, in a heap of 100 bytes. -/
def sampleXhr : Xhr :=
  ⟨206, some (headerText [("ETag", "\"é-1\""), ("x-empty", "")]), some [0, 13, 10]⟩

theorem sampleHeaders_ok : HeadersOk [("ETag", "\"é-1\""), ("x-empty", "")] where
  each h hmem := by
    simp only [List.mem_cons, List.not_mem_nil, or_false] at hmem
    obtain rfl | rfl := hmem
    · decide
    · decide
  distinct := by
    rw [List.pairwise_pair]
    decide

theorem wire_round_trip_sample :
    ∃ m : Memory,
      wasm_xhr_no_body ⟨fun _ => "", textEncode, fun _ _ => true⟩
          (some fun _ => some sampleXhr) ⟨0, fun _ => 0⟩ (fun _ => (8, ⟨100, fun _ => 0⟩)) [] [] [] =
        some (8, m) ∧
      Recovered (ParseWasmResponse sampleUtil m 8) 206 [("ETag", "\"é-1\""), ("x-empty", "")]
        [0, 13, 10] := by
  obtain ⟨hparse, hproduce⟩ := wire_round_trip sampleUtil sampleUtil_laws
  have hgranted : Granted sampleXhr (fun _ => (8, ⟨100, fun _ => 0⟩)) 8 ⟨100, fun _ => 0⟩ :=
    ⟨rfl, by decide, by decide⟩
  have hxhr := hproduce ⟨fun _ => "", textEncode, fun _ _ => true⟩ (fun _ => some sampleXhr)
    sampleXhr ⟨0, fun _ => 0⟩ _ 8 _ [] [] [] [] (by decide) hgranted
  exact ⟨_, hxhr.1 rfl, hparse _ 8 206 _ [0, 13, 10] (by decide) sampleHeaders_ok (by decide)
    (by decide) (by decide) Memory.holds_write⟩

/-! ## What the format cannot carry -/

theorem textEncode_replicate (n : Nat) :
    textEncode (String.ofList (List.replicate n 'a')) = List.replicate n 97 := by
  unfold textEncode
  rw [String.toList_ofList]
  induction n with
  | zero => rfl
  | succ n ih =>
    rw [List.replicate_succ, List.flatMap_cons, ih, List.replicate_succ]
    rfl

theorem longName_ok {n : Nat} (hn : n ≠ 0) :
    HeadersOk [(String.ofList (List.replicate n 'a'), "")] where
  each h hmem := by
    obtain rfl := List.mem_singleton.mp hmem
    have ha : ∀ c ∈ (String.ofList (List.replicate n 'a')).toList, c = 'a' := by
      intro c hc
      rw [String.toList_ofList] at hc
      exact (List.mem_replicate.mp hc).2
    have hspace : ¬ CharSpace 'a' := by
      unfold CharSpace
      decide
    refine ⟨?_, ⟨?_, ?_⟩, ⟨nofun, nofun⟩, ?_, nofun⟩
    · intro hempty
      have hlist := congrArg String.toList hempty
      rw [String.toList_ofList] at hlist
      exact hn (by simpa using hlist)
    · intro c hc
      rw [ha c (List.mem_of_mem_head? hc)]
      exact hspace
    · intro c hc
      rw [ha c (List.mem_of_mem_getLast? hc)]
      exact hspace
    · intro c hc
      rw [ha c hc]
      decide
  distinct := List.pairwise_singleton _ _

/-- A header text of a few bytes more than 2^32: the parser takes its length for those few, and
what follows them for the length of a body. -/
theorem long_headers_lost {util : HttpUtil} {m : Memory} {buf n : Nat} (hbuf : buf ≠ 0)
    (hn : n % 4294967296 = 0) (hpos : 6 ≤ n)
    (h : m.Holds buf (encode 200 (headerText [(String.ofList (List.replicate n 'a'), "")]) [])) :
    (ParseWasmResponse util m buf).body ≠ [] := by
  have htext : textEncode (headerText [(String.ofList (List.replicate n 'a'), "")]) =
      List.replicate n 97 ++ [58, 32] := by
    rw [textEncode_headerText, List.map_singleton, List.intercalate_singleton]
    unfold lineBytes
    rw [textEncode_replicate]
    rfl
  unfold encode at h
  dsimp only at h
  rw [htext] at h
  simp only [Memory.holds_append, List.length_append, length_littleEndian, List.length_replicate,
    List.length_cons, List.length_nil] at h
  obtain ⟨⟨⟨⟨-, hlen⟩, hhead, -⟩, -⟩, -⟩ := h
  have hheadLen : loadLength m (buf + 2) = 2 := by
    rw [loadLength_eq hlen]
    omega
  have hbyte : ∀ i, i < 4 → m.byte (buf + 2 + 4 + 2 + i) = 97 := by
    intro i hi
    have hget := hhead (2 + i) (by rw [List.length_replicate]; omega)
    rw [List.getElem_replicate] at hget
    rw [← hget]
    congr 1
    omega
  have hbodyLen : loadLength m (buf + 2 + 4 + 2) = 1633771873 := by
    have h0 := hbyte 0 (by decide)
    rw [Nat.add_zero] at h0
    unfold loadLength
    rw [h0, hbyte 1 (by decide), hbyte 2 (by decide), hbyte 3 (by decide)]
    rfl
  unfold ParseWasmResponse
  rw [if_neg hbuf]
  dsimp only
  rw [hheadLen, hbodyLen]
  intro hnil
  have hlength := congrArg List.length hnil
  unfold Memory.read at hlength
  rw [if_pos (by decide), List.length_map, List.length_range] at hlength
  exact absurd hlength (by decide)

/-- For a status of 0 the producers write nothing, whatever `_malloc` would give, and a header
text of 2^32 bytes or more is not read back. -/
theorem wire_limits :
    (∃ (send : Asked → Option Xhr) (xhr : Xhr) (m : Memory),
      xhr.status = 0 ∧ send ⟨"", "", [], none⟩ = some xhr ∧
        Granted xhr (fun _ => (8, m)) 8 m ∧
        wasm_xhr_no_body ⟨fun _ => "", textEncode, fun _ _ => true⟩ (some send) m
          (fun _ => (8, m)) [] [] [] = some (0, m) ∧
        ¬ m.Holds 8 (encode 0 (xhr.headers.getD "") (xhr.response.getD []))) ∧
    ¬ ∀ m buf status headers body, status < 65536 → HeadersOk headers →
      body.length < 4294967296 → buf ≠ 0 →
      m.Holds buf (encode status (headerText headers) body) →
      Recovered (ParseWasmResponse sampleUtil m buf) status headers body := by
  constructor
  · refine ⟨fun _ => some ⟨0, none, some [1]⟩, ⟨0, none, some [1]⟩, ⟨100, fun _ => 0⟩, rfl, rfl,
      ⟨rfl, by decide, by decide⟩, rfl, fun h => ?_⟩
    exact absurd (h 6 (by decide)) (by decide)
  · intro h
    have hlost := h ((⟨0, fun _ => 0⟩ : Memory).write 8 (encode 200 (headerText
      [(String.ofList (List.replicate 4294967296 'a'), "")]) [])) 8 200 _ [] (by decide)
      (longName_ok (by decide)) (by decide) (by decide) Memory.holds_write
    exact long_headers_lost (by decide) (by decide) (by decide) Memory.holds_write hlost.body

/-! ## The response of a call -/

/-- A response that the format can carry. -/
structure Response.Carried (r : Response) : Prop where
  status : r.status < 65536
  headers : HeadersOk r.headers
  text : (textEncode (headerText r.headers)).length < 4294967296
  body : r.body.length < 4294967296

/-- The buffer of the call has a response to its own request, and the parser recovers it. -/
def ParsesOwn (util : HttpUtil) (web : Web) (st : Mailbox) (c : CallId) : Prop :=
  ∃ b bytes response, (st.calls c).buffer = some b ∧ (st.buffers b).contents = some bytes ∧
    ⟨some c, outgoing web (st.calls c).request, response⟩ ∈ st.fetches ∧
    (response.Carried → ∀ m buf, buf ≠ 0 → m.Holds buf bytes →
      Recovered (ParseWasmResponse util m buf) response.status response.headers response.body)

/-- **A call that returns `OK` parses the response to its own request**, whatever the other calls
and the helper do in a tidy run. -/
theorem own_response_parsed {util : HttpUtil} (laws : util.Laws) {web : Web}
    (hencode : web.encode = textEncode) {es : List Event} {st : Mailbox}
    (h : Run (Mailbox.step web) Tidy {} es st) {c : CallId}
    (hok : (st.calls c).pc = .returned .ok) : ParsesOwn util web st c := by
  obtain ⟨b, bytes, hbuffer, hcontents, response, rfl, hfetch⟩ := ((Inv.of_run h).call c).ok hok
  refine ⟨b, _, response, hbuffer, hcontents, hfetch, fun hcarried m buf hbuf hholds => ?_⟩
  rw [wire_eq_encode hencode] at hholds
  exact parse_encode laws hcarried.status hcarried.headers hcarried.text hcarried.body hbuf hholds

/-- Call 0 gives up, and call 1 gets its response in the same slot. -/
theorem own_response_parsed_reused : ∃ st, Run (Mailbox.step { ascii with encode := textEncode })
    Tidy {} orderlySweep st ∧ (st.calls 1).pc = .returned .ok ∧
      ParsesOwn sampleUtil { ascii with encode := textEncode } st 1 := by
  obtain ⟨st, hrun, hp⟩ := Run.exists_of_execute (show (execute
    (Mailbox.step { ascii with encode := textEncode }) Tidy {} orderlySweep).map
      (fun st => decide ((st.calls 1).pc = .returned .ok)) = some true by decide +kernel)
  have hok := of_decide_eq_true hp
  exact ⟨st, hrun, hok, own_response_parsed sampleUtil_laws rfl hrun hok⟩

end Haybarn.Http
