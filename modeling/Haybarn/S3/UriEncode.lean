import Haybarn.Lib.Percent

/-!
# The encoding of a path that is signed

`uriEncode` (utils/s3_helper.ts) encodes what goes into the canonical request of SigV4: unreserved
characters stay, a slash stays unless it is to be encoded, and anything else becomes `%` with two
digits. It goes over the code units of the string, and takes each for a byte: `uriEncode_right_iff`
says that the encoding is right for the strings of ASCII characters, and for no others.

Mirroring notes:
- The string is its UTF-16 code units; the result has ASCII characters only, and is a list of them.
- `hexDigit[i]` is `undefined` behind the last digit, and `+=` appends the name of it.
-/

namespace Haybarn.S3

open Haybarn.Lib

/-! ## The code -/

def hexDigit : List Char :=
  ['0', '1', '2', '3', '4', '5', '6', '7', '8', '9', 'A', 'B', 'C', 'D', 'E', 'F']

/-- What `result += hexDigit[i]` appends. -/
def hexDigitAt (i : Nat) : List Char :=
  match hexDigit[i]? with
  | some d => [d]
  | none => "undefined".toList

def unreserved (ch : UInt16) : Bool :=
  (65 ≤ ch && ch ≤ 90) || (97 ≤ ch && ch ≤ 122) || (48 ≤ ch && ch ≤ 57)
    || ch == 95 || ch == 45 || ch == 126 || ch == 46

/-- What one turn of the loop appends. -/
def uriEncodeUnit (encode_slash : Bool) (ch : UInt16) : List Char :=
  if unreserved ch then [Char.ofNat ch.toNat]
  else if ch = 47 then if encode_slash then ['%', '2', 'F'] else [Char.ofNat ch.toNat]
  else '%' :: (hexDigitAt (ch.toNat >>> 4) ++ hexDigitAt (ch.toNat &&& 15))

def uriEncode (input : List UInt16) (encode_slash : Bool := false) : List Char :=
  input.foldl (fun result ch => result ++ uriEncodeUnit encode_slash ch) []

/-- The loop, with what it has appended so far. -/
theorem uriEncode_loop (encode_slash : Bool) (input : List UInt16) (result : List Char) :
    input.foldl (fun result ch => result ++ uriEncodeUnit encode_slash ch) result =
      result ++ input.flatMap (uriEncodeUnit encode_slash) := by
  induction input generalizing result with
  | nil => simp
  | cons ch input ih => rw [List.foldl_cons, ih, List.flatMap_cons, List.append_assoc]

theorem uriEncode_eq (input : List UInt16) (encode_slash : Bool) :
    uriEncode input encode_slash = input.flatMap (uriEncodeUnit encode_slash) := by
  unfold uriEncode
  rw [uriEncode_loop, List.nil_append]

/-! ## What an encoding is -/

def isUnreserved (c : Char) : Bool :=
  c.isAlphanum || c == '_' || c == '-' || c == '~' || c == '.'

/-- Unreserved characters, `/` where it is allowed, and groups of `%` with two digits. -/
inductive Encoded (slash : Bool) : List Char → Prop
  | nil : Encoded slash []
  | char {c : Char} {rest : List Char} (hc : isUnreserved c = true ∨ c = '/' ∧ slash = true)
      (hrest : Encoded slash rest) : Encoded slash (c :: rest)
  | group {a b : Char} {rest : List Char} (ha : upperHex a = true) (hb : upperHex b = true)
      (hrest : Encoded slash rest) : Encoded slash ('%' :: a :: b :: rest)

/-- `out` encodes the string. -/
structure Encodes (encode_slash : Bool) (s : String) (out : List Char) : Prop where
  encoded : Encoded (!encode_slash) out
  decoded : decodeUtf8 (percentDecode out) = some s

/-! ## One code unit -/

theorem hexDigit_isDigit : ∀ i < 16, hexDigitAt i = [hexDigit.getD i '0'] ∧
    upperHex (hexDigit.getD i '0') = true ∧ hexValue (hexDigit.getD i '0') = some i := by
  decide

theorem hexDigitAt_of_lt {i : Nat} (h : i < 16) :
    ∃ d, hexDigitAt i = [d] ∧ upperHex d = true ∧ hexValue d = some i :=
  ⟨_, hexDigit_isDigit i h⟩

theorem hexDigitAt_of_le {i : Nat} (h : 16 ≤ i) : hexDigitAt i = "undefined".toList := by
  have hlen : hexDigit.length = 16 := rfl
  unfold hexDigitAt
  rw [List.getElem?_eq_none (by omega)]

theorem unreserved_lt {ch : UInt16} (h : unreserved ch = true) : ch.toNat < 128 := by
  simp only [unreserved, Bool.or_eq_true, Bool.and_eq_true, decide_eq_true_eq, beq_iff_eq,
    UInt16.le_iff_toNat_le, ← UInt16.toNat_inj, UInt16.reduceToNat] at h
  omega

theorem unreserved_ascii : ∀ n < 128, unreserved (UInt16.ofNat n) = true →
    isUnreserved (Char.ofNat n) = true ∧ (Char.ofNat n).toNat = n ∧ Char.ofNat n ≠ '%' := by
  decide

/-- What a code unit below 256 becomes: one character, or a group for the byte. -/
theorem uriEncodeUnit_byte (encode_slash : Bool) {ch : UInt16} (h : ch.toNat < 256) :
    (∃ c : Char, uriEncodeUnit encode_slash ch = [c] ∧ c ≠ '%' ∧ c.toNat = ch.toNat ∧
      c.toNat < 128 ∧ (isUnreserved c = true ∨ c = '/' ∧ (!encode_slash) = true)) ∨
    ∃ a b x y, uriEncodeUnit encode_slash ch = ['%', a, b] ∧ upperHex a = true ∧
      upperHex b = true ∧ hexValue a = some x ∧ hexValue b = some y ∧ 16 * x + y = ch.toNat := by
  unfold uriEncodeUnit
  split
  next hu =>
    have hlt := unreserved_lt hu
    obtain ⟨hc, hnat, hne⟩ := unreserved_ascii ch.toNat hlt (by simpa using hu)
    exact Or.inl ⟨_, rfl, hne, hnat, by omega, Or.inl hc⟩
  next hu =>
    split
    next hslash =>
      subst hslash
      cases encode_slash with
      | true => exact Or.inr ⟨'2', 'F', 2, 15, by simp, by decide⟩
      | false => exact Or.inl ⟨'/', by simp, by decide⟩
    next hslash =>
      have hhi : ch.toNat >>> 4 < 16 := by rw [Nat.shiftRight_eq_div_pow]; omega
      have hlo : ch.toNat &&& 15 < 16 := by
        rw [show 15 = 2 ^ 4 - 1 from rfl, Nat.and_two_pow_sub_one_eq_mod]
        omega
      obtain ⟨a, ha, hupa, hvala⟩ := hexDigitAt_of_lt hhi
      obtain ⟨b, hb, hupb, hvalb⟩ := hexDigitAt_of_lt hlo
      refine Or.inr ⟨a, b, _, _, ?_, hupa, hupb, hvala, hvalb, ?_⟩
      · rw [ha, hb]
        rfl
      · rw [Nat.shiftRight_eq_div_pow, show 15 = 2 ^ 4 - 1 from rfl,
          Nat.and_two_pow_sub_one_eq_mod]
        omega

/-- From 256 on there is no such digit. -/
theorem uriEncodeUnit_wide (encode_slash : Bool) {ch : UInt16} (h : 256 ≤ ch.toNat) :
    ∃ rest, uriEncodeUnit encode_slash ch = '%' :: 'u' :: 'n' :: rest := by
  have hu : unreserved ch ≠ true := by
    intro hu
    have := unreserved_lt hu
    omega
  have hslash : ch ≠ 47 := by
    rintro rfl
    exact absurd h (by decide)
  unfold uriEncodeUnit
  rw [if_neg hu, if_neg hslash, hexDigitAt_of_le (by rw [Nat.shiftRight_eq_div_pow]; omega)]
  exact ⟨_, rfl⟩

/-! ## The string -/

theorem Encoded.tail {slash : Bool} {c : Char} {rest : List Char} (hc : c ≠ '%')
    (h : Encoded slash (c :: rest)) : Encoded slash rest := by
  cases h with
  | char _ hrest => exact hrest
  | group => exact absurd rfl hc

theorem Encoded.digits {slash : Bool} {a b : Char} {rest : List Char}
    (h : Encoded slash ('%' :: a :: b :: rest)) : upperHex a = true ∧ Encoded slash rest := by
  cases h with
  | char hc =>
    obtain hc | ⟨hc, -⟩ := hc
    · exact absurd hc (by decide)
    · exact absurd hc (by decide)
  | group ha _ hrest => exact ⟨ha, hrest⟩

/-- An encoding has no code unit from 256 on. -/
theorem bytes_of_encoded (encode_slash : Bool) {input : List UInt16}
    (h : Encoded (!encode_slash) (input.flatMap (uriEncodeUnit encode_slash))) :
    ∀ ch ∈ input, ch.toNat < 256 := by
  induction input with
  | nil => simp
  | cons ch input ih =>
    rw [List.flatMap_cons] at h
    by_cases hwide : 256 ≤ ch.toNat
    · obtain ⟨rest, hrest⟩ := uriEncodeUnit_wide encode_slash hwide
      rw [hrest] at h
      exact absurd h.digits.1 (by decide)
    · have hrest : Encoded (!encode_slash) (input.flatMap (uriEncodeUnit encode_slash)) := by
        obtain ⟨c, hc, hne, -⟩ | ⟨a, b, x, y, hab, -⟩ :=
          @uriEncodeUnit_byte encode_slash ch (by omega)
        · rw [hc, List.singleton_append] at h
          exact h.tail hne
        · rw [hab] at h
          exact h.digits.2
      intro u hu
      obtain rfl | hu := List.mem_cons.mp hu
      · omega
      · exact ih hrest u hu

/-- Each code unit below 256 becomes a byte. -/
theorem percentDecode_uriEncode (encode_slash : Bool) {input : List UInt16}
    (h : ∀ ch ∈ input, ch.toNat < 256) :
    percentDecode (input.flatMap (uriEncodeUnit encode_slash)) =
      input.map fun ch => UInt8.ofNat ch.toNat := by
  induction input with
  | nil => simp [percentDecode]
  | cons ch input ih =>
    have ih := ih fun u hu => h u (List.mem_cons_of_mem _ hu)
    rw [List.flatMap_cons, List.map_cons]
    obtain ⟨c, hc, hne, hnat, hlt, -⟩ | ⟨a, b, x, y, hab, -, -, ha, hb, hxy⟩ :=
      uriEncodeUnit_byte encode_slash (h ch List.mem_cons_self)
    · rw [hc, List.singleton_append, percentDecode_cons hne, ih,
        encodeChar_of_lt hlt, hnat, List.singleton_append]
    · rw [hab, List.cons_append, List.cons_append, List.cons_append, List.nil_append,
        percentDecode_group ha hb, hxy, ih]

theorem encoded_uriEncode (encode_slash : Bool) {input : List UInt16}
    (h : ∀ ch ∈ input, ch.toNat < 256) :
    Encoded (!encode_slash) (input.flatMap (uriEncodeUnit encode_slash)) := by
  induction input with
  | nil => exact .nil
  | cons ch input ih =>
    have ih := ih fun u hu => h u (List.mem_cons_of_mem _ hu)
    rw [List.flatMap_cons]
    obtain ⟨c, hc, -, -, -, hallowed⟩ | ⟨a, b, x, y, hab, ha, hb, -⟩ :=
      uriEncodeUnit_byte encode_slash (h ch List.mem_cons_self)
    · rw [hc]
      exact .char hallowed ih
    · rw [hab]
      exact .group ha hb ih

theorem forall_mem_utf16 {s : String} :
    (∀ u ∈ utf16 s, u.toNat < 256) ↔ ∀ c ∈ s.toList, c.toNat < 256 := by
  unfold utf16
  constructor
  · intro h c hc
    by_cases hwide : 256 ≤ c.toNat
    · obtain ⟨u, us, hus⟩ := List.exists_cons_of_ne_nil (encodeUtf16_ne_nil c)
      have hmem : u ∈ encodeUtf16 c := by rw [hus]; exact List.mem_cons_self
      have hle := le_of_mem_encodeUtf16 hmem hwide
      have hlt := h u (List.mem_flatMap.mpr ⟨c, hc, hmem⟩)
      omega
    · omega
  · intro h u hu
    obtain ⟨c, hc, hmem⟩ := List.mem_flatMap.mp hu
    have hlt := h c hc
    rw [encodeUtf16_of_lt hlt, List.mem_singleton] at hmem
    rw [hmem, UInt16.toNat_ofNat']
    omega

/-- Below 256, the bytes that the code units are taken for are those of the characters. -/
theorem bytes_utf16 {cs : List Char} (h : ∀ c ∈ cs, c.toNat < 256) :
    ((cs.flatMap encodeUtf16).map fun ch => UInt8.ofNat ch.toNat) =
      cs.map fun c => UInt8.ofNat c.toNat := by
  induction cs with
  | nil => rfl
  | cons c cs ih =>
    have hc := h c List.mem_cons_self
    rw [List.flatMap_cons, encodeUtf16_of_lt hc, List.singleton_append, List.map_cons,
      List.map_cons, ih fun d hd => h d (List.mem_cons_of_mem _ hd), UInt16.toNat_ofNat',
      Nat.mod_eq_of_lt (by omega)]

theorem textEncode_of_ascii {cs : List Char} (h : ∀ c ∈ cs, c.toNat < 128) :
    cs.flatMap String.utf8EncodeChar = cs.map fun c => UInt8.ofNat c.toNat := by
  induction cs with
  | nil => rfl
  | cons c cs ih =>
    rw [List.flatMap_cons, List.map_cons, encodeChar_of_lt (h c List.mem_cons_self),
      List.singleton_append, ih fun d hd => h d (List.mem_cons_of_mem _ hd)]

theorem length_le_textEncode (cs : List Char) :
    cs.length ≤ (cs.flatMap String.utf8EncodeChar).length := by
  induction cs with
  | nil => exact Nat.le_refl _
  | cons c cs ih =>
    have hpos := c.utf8Size_pos
    rw [List.flatMap_cons, List.length_append, List.length_cons, String.length_utf8EncodeChar]
    omega

/-- An encoding with one byte a character has ASCII characters only. -/
theorem ascii_of_length {cs : List Char}
    (h : (cs.flatMap String.utf8EncodeChar).length = cs.length) : ∀ c ∈ cs, c.toNat < 128 := by
  induction cs with
  | nil => simp
  | cons c cs ih =>
    have hpos := c.utf8Size_pos
    have hle := length_le_textEncode cs
    rw [List.flatMap_cons, List.length_append, List.length_cons,
      String.length_utf8EncodeChar] at h
    intro d hd
    obtain rfl | hd := List.mem_cons.mp hd
    · have hone : d.val ≤ 127 := Char.utf8Size_eq_one_iff.mp (by omega)
      rw [UInt32.le_iff_toNat_le] at hone
      have hone : d.toNat ≤ 127 := hone
      omega
    · exact ih (by omega) d hd

/-- **The encoding is right exactly for strings of ASCII characters.** Any other character becomes
one byte, which is not how UTF-8 has it, or none at all. -/
theorem uriEncode_right_iff (s : String) (encode_slash : Bool) :
    Encodes encode_slash s (uriEncode (utf16 s) encode_slash) ↔ ∀ c ∈ s.toList, c.toNat < 128 := by
  rw [uriEncode_eq]
  constructor
  · rintro ⟨hencoded, hdecoded⟩
    have hunits := bytes_of_encoded encode_slash hencoded
    have hchars := forall_mem_utf16.mp hunits
    rw [percentDecode_uriEncode encode_slash hunits, decodeUtf8_eq_some] at hdecoded
    unfold utf16 at hdecoded
    rw [bytes_utf16 hchars] at hdecoded
    refine ascii_of_length ?_
    have hlen := congrArg List.length hdecoded
    rw [List.length_map] at hlen
    exact hlen.symm
  · intro hascii
    have hchars : ∀ c ∈ s.toList, c.toNat < 256 := fun c hc => by
      have := hascii c hc
      omega
    have hunits := forall_mem_utf16.mpr hchars
    refine ⟨encoded_uriEncode encode_slash hunits, ?_⟩
    rw [percentDecode_uriEncode encode_slash hunits, decodeUtf8_eq_some]
    unfold utf16 textEncode
    rw [bytes_utf16 hchars, textEncode_of_ascii hascii]

/-- An `é` becomes `%E9`, which is no UTF-8. -/
theorem e_acute_is_encoded_as_latin : uriEncode (utf16 "é") = ['%', 'E', '9'] ∧
    ¬ Encodes false "é" (uriEncode (utf16 "é")) := by
  refine ⟨by decide, fun h => ?_⟩
  have hbytes := decodeUtf8_eq_some.mp h.decoded
  exact absurd hbytes (by decide)

end Haybarn.S3
