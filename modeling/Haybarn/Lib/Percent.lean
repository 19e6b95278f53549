import Haybarn.Lib.Utf8

/-!
# UTF-16 and percent-encoding

A string as the code units that a script language sees, and as the bytes that a percent-encoded
text stands for. `percentDecode` takes `%` with two hexadecimal digits as the byte, and any other
character as itself, so that `percentDecode` of a text without `%` is its UTF-8 encoding.
-/

namespace Haybarn.Lib

/-! ## UTF-16 -/

def encodeUtf16 (c : Char) : List UInt16 :=
  if c.toNat < 0x10000 then [UInt16.ofNat c.toNat]
  else
    [UInt16.ofNat (0xD800 + (c.toNat - 0x10000) / 0x400),
      UInt16.ofNat (0xDC00 + (c.toNat - 0x10000) % 0x400)]

def utf16 (s : String) : List UInt16 := s.toList.flatMap encodeUtf16

/-- Below 256 there is one code unit, the character itself; above there is one that is not. -/
theorem encodeUtf16_of_lt {c : Char} (h : c.toNat < 256) :
    encodeUtf16 c = [UInt16.ofNat c.toNat] := by
  unfold encodeUtf16
  rw [if_pos (by omega)]

theorem le_of_mem_encodeUtf16 {c : Char} {u : UInt16} (hu : u ∈ encodeUtf16 c)
    (h : 256 ≤ c.toNat) : 256 ≤ u.toNat := by
  have hvalid : c.toNat < 0x110000 := by
    have hv : c.toNat < 0xD800 ∨ 0xDFFF < c.toNat ∧ c.toNat < 0x110000 := c.valid
    omega
  unfold encodeUtf16 at hu
  split at hu
  next hlt =>
    rw [List.mem_singleton] at hu
    rw [hu, UInt16.toNat_ofNat']
    omega
  next =>
    simp only [List.mem_cons, List.not_mem_nil, or_false] at hu
    obtain hu | hu := hu <;> rw [hu, UInt16.toNat_ofNat'] <;> omega

theorem encodeUtf16_ne_nil (c : Char) : encodeUtf16 c ≠ [] := by
  unfold encodeUtf16
  split <;> simp

/-! ## UTF-8 -/

/-- The string that is encoded as these bytes, if there is one. -/
def decodeUtf8 (bytes : List UInt8) : Option String := String.fromUTF8? bytes.toByteArray

theorem encodeChar_of_lt {c : Char} (h : c.toNat < 128) :
    String.utf8EncodeChar c = [UInt8.ofNat c.toNat] := by
  have hle : c.val ≤ 127 := by
    rw [UInt32.le_iff_toNat_le]
    show c.toNat ≤ 127
    omega
  rw [String.utf8EncodeChar_eq_singleton (Char.utf8Size_eq_one_iff.mpr hle)]
  rfl

theorem toByteArray_eq (s : String) : s.toByteArray = (textEncode s).toByteArray := by
  rw [← String.utf8Encode_toList]
  rfl

theorem decodeUtf8_eq_some {bytes : List UInt8} {s : String} :
    decodeUtf8 bytes = some s ↔ bytes = textEncode s := by
  unfold decodeUtf8 String.fromUTF8?
  constructor
  · intro h
    split at h
    next hv =>
      have hs : s.toByteArray = bytes.toByteArray := by
        rw [← Option.some.inj h]
        rfl
      rw [toByteArray_eq] at hs
      have hdata := congrArg (fun b : ByteArray => b.data.toList) hs
      simpa using hdata.symm
    next => cases h
  · intro h
    have hs : bytes.toByteArray = s.toByteArray := by rw [toByteArray_eq, h]
    split
    next => exact congrArg some (String.toByteArray_inj.mp hs)
    next hv =>
      rw [hs] at hv
      exact absurd s.isValidUTF8 (by simpa using hv)

/-! ## Hexadecimal digits -/

def hexValue (c : Char) : Option Nat :=
  if '0' ≤ c ∧ c ≤ '9' then some (c.toNat - 48)
  else if 'A' ≤ c ∧ c ≤ 'F' then some (c.toNat - 55)
  else if 'a' ≤ c ∧ c ≤ 'f' then some (c.toNat - 87)
  else none

/-- A digit, in upper case. -/
def upperHex (c : Char) : Bool := ('0' ≤ c && c ≤ '9') || ('A' ≤ c && c ≤ 'F')

/-! ## Decoding -/

def percentDecode : List Char → List UInt8
  | '%' :: a :: b :: rest =>
    match hexValue a, hexValue b with
    | some x, some y => UInt8.ofNat (16 * x + y) :: percentDecode rest
    | _, _ => 37 :: percentDecode (a :: b :: rest)
  | c :: rest => String.utf8EncodeChar c ++ percentDecode rest
  | [] => []

theorem percentDecode_cons {c : Char} (hc : c ≠ '%') (rest : List Char) :
    percentDecode (c :: rest) = String.utf8EncodeChar c ++ percentDecode rest := by
  rw [percentDecode]
  intro a b rest' h
  exact absurd h hc

theorem percentDecode_group {a b : Char} {x y : Nat} (ha : hexValue a = some x)
    (hb : hexValue b = some y) (rest : List Char) :
    percentDecode ('%' :: a :: b :: rest) = UInt8.ofNat (16 * x + y) :: percentDecode rest := by
  rw [percentDecode, ha, hb]

/-! ## Groups

A group is `%` with two hexadecimal digits behind it. A text without one decodes to its own UTF-8
encoding. Induction over a text goes group by group (`group_induction`).
-/

/-- A text that makes a group of a `%` before it. -/
def startsGroup : List Char → Bool
  | a :: b :: _ => (hexValue a).isSome && (hexValue b).isSome
  | _ => false

def hasGroup : List Char → Bool
  | [] => false
  | c :: cs => (c == '%' && startsGroup cs) || hasGroup cs

theorem percentDecode_percent {cs : List Char} (h : startsGroup cs = false) :
    percentDecode ('%' :: cs) = 37 :: percentDecode cs := by
  cases cs with
  | nil => simp [percentDecode, String.utf8EncodeChar]
  | cons a cs =>
    cases cs with
    | nil =>
      rw [percentDecode]
      · rfl
      · intro a' b' rest' hchar hcs
        simp at hcs
    | cons b cs =>
      rw [percentDecode]
      split
      next x y hx hy => simp [startsGroup, hx, hy] at h
      next => rfl

theorem group_induction {P : List Char → Prop} (nil : P [])
    (char : ∀ c cs, c ≠ '%' → P cs → P (c :: cs))
    (percent : ∀ cs, startsGroup cs = false → P cs → P ('%' :: cs))
    (group : ∀ a b x y cs, hexValue a = some x → hexValue b = some y → P cs →
      P ('%' :: a :: b :: cs)) : ∀ cs, P cs
  | [] => nil
  | c :: cs => by
    by_cases hc : c = '%'
    · subst hc
      cases hstart : startsGroup cs with
      | false => exact percent cs hstart (group_induction nil char percent group cs)
      | true =>
        cases cs with
        | nil => simp [startsGroup] at hstart
        | cons a cs =>
          cases cs with
          | nil => simp [startsGroup] at hstart
          | cons b cs =>
            simp only [startsGroup, Bool.and_eq_true, Option.isSome_iff_exists] at hstart
            obtain ⟨⟨x, hx⟩, y, hy⟩ := hstart
            exact group a b x y cs hx hy (group_induction nil char percent group cs)
    · exact char c cs hc (group_induction nil char percent group cs)

theorem percentDecode_of_ungrouped {cs : List Char} (h : hasGroup cs = false) :
    percentDecode cs = cs.flatMap String.utf8EncodeChar := by
  induction cs with
  | nil => simp [percentDecode]
  | cons c cs ih =>
    simp only [hasGroup, Bool.or_eq_false_iff, Bool.and_eq_false_iff] at h
    rw [List.flatMap_cons, ← ih h.2]
    by_cases hc : c = '%'
    · subst hc
      rw [percentDecode_percent (by simpa using h.1)]
      rfl
    · exact percentDecode_cons hc cs

/-- No group goes over a character that is no digit. -/
theorem startsGroup_append {c : Char} (hc : hexValue c = none) (cs rest : List Char) :
    startsGroup (cs ++ c :: rest) = startsGroup cs := by
  cases cs with
  | nil => cases rest <;> simp [startsGroup, hc]
  | cons a cs =>
    cases cs with
    | nil => simp [startsGroup, hc]
    | cons b cs => rfl

theorem percentDecode_append {c : Char} (hc : hexValue c = none) (hne : c ≠ '%')
    (cs rest : List Char) :
    percentDecode (cs ++ c :: rest) =
      percentDecode cs ++ (String.utf8EncodeChar c ++ percentDecode rest) := by
  induction cs using group_induction with
  | nil => rw [List.nil_append, percentDecode_cons hne, percentDecode, List.nil_append]
  | char d cs hd ih =>
    rw [List.cons_append, percentDecode_cons hd, ih, percentDecode_cons hd, List.append_assoc]
  | percent cs hstart ih =>
    rw [List.cons_append, percentDecode_percent (by rw [startsGroup_append hc, hstart]), ih,
      percentDecode_percent hstart, List.cons_append]
  | group a b x y cs ha hb ih =>
    rw [List.cons_append, List.cons_append, List.cons_append, percentDecode_group ha hb, ih,
      percentDecode_group ha hb, List.cons_append]

/-! ## Encoding -/

/-- A digit of a byte that is encoded, in upper case. -/
def upperDigit (n : Nat) : Char := Char.ofNat (if n < 10 then 48 + n else 55 + n)

def percentEncodeByte (b : UInt8) : List Char :=
  ['%', upperDigit (b.toNat / 16), upperDigit (b.toNat % 16)]

theorem hexValue_upperDigit : ∀ n < 16, hexValue (upperDigit n) = some n := by
  decide

theorem percentDecode_encodeByte (b : UInt8) (rest : List Char) :
    percentDecode (percentEncodeByte b ++ rest) = b :: percentDecode rest := by
  have hlt := b.toNat_lt
  unfold percentEncodeByte
  rw [List.cons_append, List.cons_append, List.cons_append, List.nil_append,
    percentDecode_group (hexValue_upperDigit _ (by omega)) (hexValue_upperDigit _ (by omega)),
    Nat.div_add_mod, UInt8.ofNat_toNat]

end Haybarn.Lib
