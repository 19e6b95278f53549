import Mathlib

/-!
# `TextDecoder`

How a browser decodes UTF-8. A malformed sequence is one replacement character, and the byte
that shows it to be malformed is looked at again. A byte order mark at the start is dropped,
so `decode` gives the text of the bytes exactly where there is none (`decode_eq_iff`).
-/

namespace Haybarn.Lib.TextDecoder

/-- What is known of a character that is not complete. -/
structure Pending where
  codePoint : Nat := 0
  needed : Nat := 0
  /-- The bounds of the next byte. -/
  lower : Nat := 0x80
  upper : Nat := 0xBF

def replacement : Char := '\uFFFD'

/-- What the first byte of a character puts out. -/
def leadOutput (byte : Nat) : List Char :=
  if byte < 0x80 then [Char.ofNat byte]
  else if 0xC2 ≤ byte ∧ byte ≤ 0xF4 then []
  else [replacement]

def leadPending (byte : Nat) : Pending :=
  if 0xC2 ≤ byte ∧ byte ≤ 0xDF then { codePoint := byte - 0xC0, needed := 1 }
  else if 0xE0 ≤ byte ∧ byte ≤ 0xEF then
    { codePoint := byte - 0xE0
      needed := 2
      lower := if byte = 0xE0 then 0xA0 else 0x80
      upper := if byte = 0xED then 0x9F else 0xBF }
  else if 0xF0 ≤ byte ∧ byte ≤ 0xF4 then
    { codePoint := byte - 0xF0
      needed := 3
      lower := if byte = 0xF0 then 0x90 else 0x80
      upper := if byte = 0xF4 then 0x8F else 0xBF }
  else {}

def decodeFrom (pending : Pending) : List UInt8 → List Char
  | [] => if pending.needed = 0 then [] else [replacement]
  | b :: bytes =>
    let byte := b.toNat
    if pending.needed = 0 then leadOutput byte ++ decodeFrom (leadPending byte) bytes
    else if pending.lower ≤ byte ∧ byte ≤ pending.upper then
      let codePoint := pending.codePoint * 64 + (byte - 0x80)
      if pending.needed = 1 then Char.ofNat codePoint :: decodeFrom {} bytes
      else decodeFrom { codePoint, needed := pending.needed - 1 } bytes
    else replacement :: (leadOutput byte ++ decodeFrom (leadPending byte) bytes)

/-- The text that the bytes stand for. -/
def text (bytes : List UInt8) : String := String.ofList (decodeFrom {} bytes)

def byteOrderMark : List UInt8 := [0xEF, 0xBB, 0xBF]

/-- `TextDecoder.decode` -/
def decode (bytes : List UInt8) : String :=
  if byteOrderMark <+: bytes then text (bytes.drop 3) else text bytes

theorem decodeFrom_mark (bytes : List UInt8) :
    decodeFrom {} (byteOrderMark ++ bytes) = '\uFEFF' :: decodeFrom {} bytes := by
  rfl

/-- **The text is decoded exactly where no byte order mark is in front of it.** -/
theorem decode_eq_iff (bytes : List UInt8) :
    decode bytes = text bytes ↔ ¬byteOrderMark <+: bytes := by
  unfold decode
  split
  next hmark =>
    obtain ⟨rest, rfl⟩ := hmark
    refine iff_of_false (fun heq => ?_) fun hnot => hnot (List.prefix_append ..)
    have hchars : decodeFrom {} rest = '\uFEFF' :: decodeFrom {} rest :=
      (String.ofList_injective heq).trans (decodeFrom_mark rest)
    exact List.cons_ne_self _ _ hchars.symm
  next hmark => exact iff_of_true rfl hmark

end Haybarn.Lib.TextDecoder
