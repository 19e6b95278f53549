import Mathlib

/-!
# UTF-8

`textEncode` is the UTF-8 encoding of a string as a list of bytes. It is a homomorphism, and a
byte below 128 in it stands for the character with that number (`mem_encodeChar`). So a text
without some ASCII character is encoded without the byte of it, and what holds of the first
and last character of a text holds of the first and last byte of its encoding.
-/

namespace Haybarn.Lib

def textEncode (s : String) : List UInt8 := s.toList.flatMap String.utf8EncodeChar

@[simp] theorem textEncode_append (s t : String) :
    textEncode (s ++ t) = textEncode s ++ textEncode t := by
  unfold textEncode
  rw [String.toList_append, List.flatMap_append]

theorem flatMap_intercalate {α β : Type} (f : α → List β) (sep : List α) (xs : List (List α)) :
    (sep.intercalate xs).flatMap f =
      (sep.flatMap f).intercalate (xs.map fun x => x.flatMap f) := by
  induction xs with
  | nil => rfl
  | cons x xs ih =>
    cases xs with
    | nil => simp
    | cons y ys =>
      rw [List.intercalate_cons_cons, List.flatMap_append, List.flatMap_append, ih]
      simp [List.intercalate_cons_cons]

/-- The encoding of a text that is put together from pieces. -/
theorem textEncode_intercalate (sep : String) (pieces : List String) :
    textEncode (sep.intercalate pieces) =
      (textEncode sep).intercalate (pieces.map textEncode) := by
  unfold textEncode
  rw [String.toList_intercalate, flatMap_intercalate, List.map_map]
  rfl

theorem encodeChar_ne_nil (c : Char) : String.utf8EncodeChar c ≠ [] := by
  intro h
  have hlen := String.length_utf8EncodeChar c
  rw [h] at hlen
  exact absurd hlen.symm (Nat.pos_iff_ne_zero.mp c.utf8Size_pos)

theorem textEncode_ne_nil {s : String} (h : s ≠ "") : textEncode s ≠ [] := by
  intro hnil
  unfold textEncode at hnil
  rw [List.flatMap_eq_nil_iff] at hnil
  refine h (String.toList_inj.mp ?_)
  rw [List.eq_nil_iff_forall_not_mem.mpr fun c hc => encodeChar_ne_nil c (hnil c hc)]
  rfl

/-- A byte below 128 is the character itself. -/
theorem mem_encodeChar {c : Char} {b : UInt8} (h : b ∈ String.utf8EncodeChar c)
    (hb : b.toNat < 128) : b.toNat = c.toNat := by
  have hc : c.val.toNat = c.toNat := rfl
  unfold String.utf8EncodeChar at h
  dsimp only at h
  rw [hc] at h
  split at h
  · simp only [List.mem_singleton] at h
    subst h
    rw [UInt8.toNat_ofNat']
    omega
  · exfalso
    split at h
    · simp only [List.mem_cons, List.not_mem_nil, or_false] at h
      obtain rfl | rfl := h <;> rw [UInt8.toNat_ofNat'] at hb <;> omega
    · split at h
      · simp only [List.mem_cons, List.not_mem_nil, or_false] at h
        obtain rfl | rfl | rfl := h <;> rw [UInt8.toNat_ofNat'] at hb <;> omega
      · simp only [List.mem_cons, List.not_mem_nil, or_false] at h
        have hlt : c.toNat < 1114112 := by
          have hvalid : c.toNat < 0xD800 ∨ 0xDFFF < c.toNat ∧ c.toNat < 0x110000 := c.valid
          omega
        obtain rfl | rfl | rfl | rfl := h <;> rw [UInt8.toNat_ofNat'] at hb <;> omega

theorem mem_textEncode {s : String} {b : UInt8} (h : b ∈ textEncode s) (hb : b.toNat < 128) :
    ∃ c ∈ s.toList, c.toNat = b.toNat := by
  obtain ⟨c, hc, hmem⟩ := List.mem_flatMap.mp h
  exact ⟨c, hc, (mem_encodeChar hmem hb).symm⟩

theorem head_textEncode {s : String} {b : UInt8} (h : (textEncode s).head? = some b)
    (hb : b.toNat < 128) : ∃ c, s.toList.head? = some c ∧ c.toNat = b.toNat := by
  unfold textEncode at h
  cases hs : s.toList with
  | nil =>
    rw [hs] at h
    cases h
  | cons c cs =>
    rw [hs, List.flatMap_cons, List.head?_append_of_ne_nil _ (encodeChar_ne_nil c)] at h
    exact ⟨c, rfl, (mem_encodeChar (List.mem_of_head? h) hb).symm⟩

theorem getLast_textEncode {s : String} {b : UInt8} (h : (textEncode s).getLast? = some b)
    (hb : b.toNat < 128) : ∃ c, s.toList.getLast? = some c ∧ c.toNat = b.toNat := by
  unfold textEncode at h
  obtain hs | ⟨cs, c, hs⟩ := s.toList.eq_nil_or_concat
  · rw [hs] at h
    cases h
  · rw [hs, List.concat_eq_append, List.flatMap_append, List.flatMap_singleton,
      List.getLast?_append_of_ne_nil _ (encodeChar_ne_nil c)] at h
    refine ⟨c, ?_, (mem_encodeChar (List.mem_of_getLast? h) hb).symm⟩
    rw [hs, List.concat_eq_append, List.getLast?_concat]

end Haybarn.Lib
