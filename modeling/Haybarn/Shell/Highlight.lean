import Haybarn.Shell.LineEditor

/-!
# Highlighting the prompt

`highlight_sql` writes the whole prompt anew, with the colours of its SQL tokens: it erases what is
on the terminal, writes every character of the rope once, and puts the terminal's cursor back.
Between the characters it writes control sequences. Newlines and artificial wraps are written as the
end of a row and the prompt of the next one.

Mirroring notes:

* what is written is a list of pieces, each with the characters that it puts out (`render`);
* `chars_iter` is the list of the characters that are still to come, with their positions; `next`
  is the one that a token has taken from it and left for the next token;
* in wasm `usize` and `u32` have the same width, so the casts of positions are left out;
* Rust's `char::is_alphanumeric` is a parameter. Nothing depends on it;
* `none` is where the code panics.

`highlight_sql_keeps_text` is the result.
-/

namespace Haybarn.Shell

inductive TokenType
  | Identifier | NumericConstant | StringConstant | Operator | Keyword | Comment
  deriving DecidableEq, Repr

structure ScriptTokens where
  offsets : List Nat
  types : List TokenType
  deriving DecidableEq, Repr

/-! ## What is written -/

inductive Piece
  /-- A control sequence. -/
  | control (sequence : String)
  /-- A prompt at the beginning. -/
  | prompt (text : String)
  | char (c : Char)
  /-- A newline of the text, and the prompt of the row behind it. -/
  | newline
  /-- An artificial wrap, and the prompt of the row behind it. -/
  | wrap
  deriving DecidableEq, Repr

def PROMPT_INIT : String := "\x1b[1mduckdb\x1b[m> "
def PROMPT_ENDL : String := "   ...> "
def PROMPT_WRAP : String := "   ..>> "

namespace Vt100

def CR : String := "\r"
def CRLF : String := "\r\n"
def CLEAR_LINE : String := "\x1b[2K"
def CURSOR_UP : String := "\x1b[A"
def MODES_OFF : String := "\x1b[m"
def MODE_BOLD : String := "\x1b[1m"
def COLOR_FG_MAGENTA : String := "\x1b[35m"
def COLOR_FG_BRIGHT_YELLOW : String := "\x1b[93m"

/-- `cursor_right` and its like. -/
def moved (n : Nat) (direction : String) : Piece := .control ("\x1b[" ++ toString n ++ direction)

end Vt100

/-- The characters that a piece puts out. -/
def Piece.render : Piece → String
  | .control sequence => sequence
  | .prompt text => text
  | .char c => c.toString
  | .newline => Vt100.CRLF ++ PROMPT_ENDL
  | .wrap => Vt100.CRLF ++ PROMPT_WRAP

/-- The character of the text that a piece stands for. -/
def Piece.text : Piece → List Char
  | .control _ | .prompt _ => []
  | .char c => [c]
  | .newline => ['\n']
  | .wrap => [paragraphSeperator]

/-- What is written, without control sequences and prompts. -/
def textOf (out : List Piece) : List Char := out.flatMap Piece.text

/-- The closure `emit`. -/
def emit (c : Char) : Piece :=
  if c = '\n' then .newline else if c = paragraphSeperator then .wrap else .char c

/-! ## The loops -/

/-- What the beginning of a token is coloured with. -/
def TokenType.style : TokenType → List Piece
  | .Keyword => [.control (Vt100.MODES_OFF ++ Vt100.COLOR_FG_BRIGHT_YELLOW ++ Vt100.MODE_BOLD)]
  | .NumericConstant | .StringConstant =>
    [.control (Vt100.MODES_OFF ++ Vt100.COLOR_FG_MAGENTA ++ Vt100.MODE_BOLD)]
  | .Identifier | .Comment | .Operator => []

/-- How a turn of the inner loop ends. -/
inductive Turn
  | goOn (out : List Piece) (in_quotes : Bool)
  /-- `break`, with the character written. -/
  | done (out : List Piece)
  /-- `break`, with the character left for the next token. -/
  | preserve (out : List Piece)
  deriving DecidableEq, Repr

/-- The exit conditions; `none` if the token goes on, with `in_quotes`. -/
def exits (isAlphanumeric : Char → Bool) (token_type : TokenType) (in_quotes : Bool) (c : Char) :
    Option (List Piece) × Bool :=
  let off : Piece := .control Vt100.MODES_OFF
  match token_type with
  | .Keyword | .NumericConstant =>
    if !isAlphanumeric c then (some [off, emit c], in_quotes) else (none, in_quotes)
  | .Identifier | .StringConstant =>
    if in_quotes then
      if c = '\'' ∨ c = '"' then (some [emit c, off], in_quotes) else (none, in_quotes)
    else if c = '\'' ∨ c = '"' then (none, true)
    else if !isAlphanumeric c then (some [off, emit c], in_quotes)
    else (none, in_quotes)
  | .Comment => (none, in_quotes)
  | .Operator => if c = ' ' then (some [off, emit c], in_quotes) else (none, in_quotes)

/-- A turn of the inner loop. -/
def turn (isAlphanumeric : Char → Bool) (token_ofs : Nat) (token_type : TokenType) (next_ofs : Nat)
    (in_quotes : Bool) (i : Nat) (c : Char) : Turn :=
  if i < token_ofs then .goOn [emit c] in_quotes
  else
    let style := if i = token_ofs then token_type.style else []
    match exits isAlphanumeric token_type in_quotes c with
    | (some out, _) => .done (style ++ out)
    | (none, in_quotes) =>
      -- preserve for next token?
      if next_ofs ≤ i then .preserve style else .goOn (style ++ [emit c]) in_quotes

/-- The state between the tokens: `next`, what `chars_iter` has not given yet, and the output. -/
structure Highlighting where
  next : Option (Nat × Char)
  chars : List (Nat × Char)
  out : List Piece
  deriving DecidableEq, Repr

/-- The inner loop, once `next` has been taken. -/
def innerLoop (isAlphanumeric : Char → Bool) (token_ofs : Nat) (token_type : TokenType)
    (next_ofs : Nat) (in_quotes : Bool) (out : List Piece) : List (Nat × Char) → Highlighting
  | [] => ⟨none, [], out⟩
  | (i, c) :: chars =>
    match turn isAlphanumeric token_ofs token_type next_ofs in_quotes i c with
    | .goOn new in_quotes =>
      innerLoop isAlphanumeric token_ofs token_type next_ofs in_quotes (out ++ new) chars
    | .done new => ⟨none, chars, out ++ new⟩
    | .preserve new => ⟨some (i, c), chars, out ++ new⟩

/-- The turn of the outer loop for one token: `next` comes first. -/
def runToken (isAlphanumeric : Char → Bool) (token_ofs : Nat) (token_type : TokenType)
    (next_ofs : Nat) (h : Highlighting) : Highlighting :=
  let h := innerLoop isAlphanumeric token_ofs token_type next_ofs false h.out
    (h.next.toList ++ h.chars)
  { h with out := h.out ++ [.control Vt100.MODES_OFF] }

/-- The outer loop. -/
def outerLoop (isAlphanumeric : Char → Bool) (len_chars : Nat) :
    List Nat → List TokenType → Highlighting → Highlighting
  | token_ofs :: offsets, token_type :: types, h =>
    outerLoop isAlphanumeric len_chars offsets types
      (runToken isAlphanumeric token_ofs token_type (offsets.headD len_chars) h)
  | _, _, h => h

/-! ## The prompt on the terminal -/

/-- What `erase_prompt` writes. -/
def PromptBuffer.erasePromptOutput (b : PromptBuffer) : Option (List Piece) := do
  let line_idx ← b.textBuffer.charToLine b.cursor
  let line_count := b.textBuffer.lenLines
  if line_count = 1 then return [.control Vt100.CLEAR_LINE, .control Vt100.CR]
  guard (line_idx < line_count)
  let down :=
    if line_idx + 1 < line_count then [Vt100.moved (line_count - 1 - line_idx) "B"] else []
  return .control Vt100.CR :: down ++ [.control Vt100.CLEAR_LINE] ++
    (List.replicate (line_count - 1) [.control Vt100.CURSOR_UP, .control Vt100.CLEAR_LINE]).flatten

/-- What `move_cursor_to` writes. -/
def PromptBuffer.moveCursorToOutput (b : PromptBuffer) (pos : Nat) : Option (List Piece) := do
  let src_line_id ← b.textBuffer.charToLine b.cursor
  let dst_line_id ← b.textBuffer.charToLine pos
  let src_col ← sub b.cursor (← b.textBuffer.lineToChar src_line_id)
  let dst_col ← sub pos (← b.textBuffer.lineToChar dst_line_id)
  let rows :=
    if src_line_id < dst_line_id then [Vt100.moved (dst_line_id - src_line_id) "B"]
    else if dst_line_id < src_line_id then [Vt100.moved (src_line_id - dst_line_id) "A"] else []
  let columns :=
    if src_col < dst_col then [Vt100.moved (dst_col - src_col) "C"]
    else if dst_col < src_col then [Vt100.moved (src_col - dst_col) "D"] else []
  return rows ++ columns

/-- `highlight_sql`: the buffer after it, and what it has written. -/
def PromptBuffer.highlightSql (isAlphanumeric : Char → Bool) (b : PromptBuffer)
    (tokens : ScriptTokens) : Option (PromptBuffer × List Piece) := do
  -- assert_eq!(tokens.offsets.len(), tokens.types.len())
  guard (tokens.offsets.length = tokens.types.length)
  let cursor := b.cursor
  let erased ← b.erasePromptOutput
  let b ← b.erasePrompt
  let chars := b.textBuffer.zipIdx.map fun ci => (ci.2, ci.1)
  let h := outerLoop isAlphanumeric b.textBuffer.length tokens.offsets tokens.types
    ⟨none, chars, erased ++ [.prompt PROMPT_INIT]⟩
  -- write remainder
  let out := h.out ++ h.chars.map (fun ic => emit ic.2) ++ [.control Vt100.MODES_OFF]
  let b := { b with cursor := b.textBuffer.length }
  let moved ← b.moveCursorToOutput cursor
  let b ← b.moveCursorTo cursor
  return (b, out ++ moved)

/-! ## No character is lost -/

theorem textOf_append (xs ys : List Piece) : textOf (xs ++ ys) = textOf xs ++ textOf ys :=
  List.flatMap_append

theorem textOf_cons (p : Piece) (out : List Piece) : textOf (p :: out) = p.text ++ textOf out :=
  List.flatMap_cons

theorem textOf_controls {out : List Piece} (h : ∀ p ∈ out, p.text = []) : textOf out = [] :=
  List.flatMap_eq_nil_iff.mpr h

theorem text_emit (c : Char) : (emit c).text = [c] := by
  unfold emit
  split
  next h => rw [h]; rfl
  next =>
    split
    next h => rw [h]; rfl
    next => rfl

theorem textOf_style (token_type : TokenType) : textOf token_type.style = [] := by
  cases token_type <;> rfl

/-- A token that ends writes the character. -/
theorem textOf_exits {isAlphanumeric : Char → Bool} {token_type : TokenType} {in_quotes : Bool}
    {c : Char} {out : List Piece}
    (h : (exits isAlphanumeric token_type in_quotes c).1 = some out) : textOf out = [c] := by
  have hoff : ∀ s, textOf [.control s, emit c] = [c] := fun s => by
    show [] ++ ((emit c).text ++ []) = [c]
    rw [text_emit, List.append_nil, List.nil_append]
  have hoff' : ∀ s, textOf [emit c, .control s] = [c] := fun s => by
    show (emit c).text ++ ([] ++ []) = [c]
    rw [text_emit, List.append_nil, List.append_nil]
  have hclosed : ∀ {p : Prop} [Decidable p] {xs : List Piece},
      (if p then (some xs, in_quotes) else (none, in_quotes)).1 = some out → xs = out := by
    intro p _ xs hif
    split at hif
    · exact Option.some.inj hif
    · cases hif
  cases token_type with
  | Keyword | NumericConstant | Operator => exact hclosed h ▸ hoff _
  | Comment => cases h
  | Identifier | StringConstant =>
    simp only [exits] at h
    split at h
    · exact hclosed h ▸ hoff' _
    · split at h
      · cases h
      · exact hclosed h ▸ hoff _

section

variable (isAlphanumeric : Char → Bool) (token_ofs : Nat) (token_type : TokenType) (next_ofs : Nat)

/-- What a turn writes, and whether the character is still to come. -/
def Turn.text : Turn → List Char × Bool
  | .goOn out _ => (textOf out, false)
  | .done out => (textOf out, false)
  | .preserve out => (textOf out, true)

/-- **A turn writes its character, or leaves it** for the next token, which begins here or
before. -/
theorem turn_text (in_quotes : Bool) (i : Nat) (c : Char) :
    (turn isAlphanumeric token_ofs token_type next_ofs in_quotes i c).text = ([c], false) ∨
      (next_ofs ≤ i ∧
        (turn isAlphanumeric token_ofs token_type next_ofs in_quotes i c).text = ([], true)) := by
  have hstyle : textOf (if i = token_ofs then token_type.style else []) = [] := by
    split
    · exact textOf_style token_type
    · rfl
  have hemit : textOf [emit c] = [c] := by simp [textOf, text_emit]
  unfold turn
  split
  · exact .inl (by rw [Turn.text, hemit])
  · dsimp only
    split
    next out q hexit =>
      have hout := textOf_exits (congrArg Prod.fst hexit)
      exact .inl (by rw [Turn.text, textOf_append, hstyle, hout, List.nil_append])
    next q _ =>
      split
      next hle => exact .inr ⟨hle, by rw [Turn.text, hstyle]⟩
      next => exact .inl (by rw [Turn.text, textOf_append, hstyle, hemit, List.nil_append])

/-- What is still to come, in order. -/
def Highlighting.rest (h : Highlighting) : List (Nat × Char) := h.next.toList ++ h.chars

/-- What has been written, and what is still to come. -/
def Highlighting.text (h : Highlighting) : List Char := textOf h.out ++ h.rest.map Prod.snd

/-- **The inner loop loses no character.** -/
theorem innerLoop_text (in_quotes : Bool) (out : List Piece) (chars : List (Nat × Char)) :
    (innerLoop isAlphanumeric token_ofs token_type next_ofs in_quotes out chars).text =
      textOf out ++ chars.map Prod.snd := by
  induction chars generalizing in_quotes out with
  | nil => rfl
  | cons ic chars ih =>
    obtain ⟨i, c⟩ := ic
    have hturn := turn_text isAlphanumeric token_ofs token_type next_ofs in_quotes i c
    rw [innerLoop]
    split
    next new q hgo =>
      rw [hgo] at hturn
      have hnew : textOf new = [c] := by simpa [Turn.text] using hturn
      rw [ih, textOf_append, hnew, List.map_cons, List.append_assoc]
      rfl
    next new hdone =>
      rw [hdone] at hturn
      have hnew : textOf new = [c] := by simpa [Turn.text] using hturn
      show textOf (out ++ new) ++ chars.map Prod.snd = _
      rw [textOf_append, hnew, List.map_cons, List.append_assoc]
      rfl
    next new hleft =>
      rw [hleft] at hturn
      have hnew : textOf new = [] := by
        rcases hturn with hsame | hkept
        · simp [Turn.text] at hsame
        · simpa [Turn.text] using hkept.2
      show textOf (out ++ new) ++ ((i, c) :: chars).map Prod.snd = _
      rw [textOf_append, hnew, List.append_nil]

/-- What is still to come behind the inner loop is an end of what came before it. -/
theorem innerLoop_rest (in_quotes : Bool) (out : List Piece) (chars : List (Nat × Char)) :
    (innerLoop isAlphanumeric token_ofs token_type next_ofs in_quotes out chars).rest <:+
      chars := by
  induction chars generalizing in_quotes out with
  | nil => exact List.suffix_refl []
  | cons ic chars ih =>
    rw [innerLoop]
    split
    · exact (ih _ _).trans (List.suffix_cons _ _)
    · exact List.suffix_cons _ _
    · exact List.suffix_refl _

/-- Where no character is behind the beginning of the next token, none is left for it. -/
theorem innerLoop_next {chars : List (Nat × Char)} (hall : ∀ ic ∈ chars, ic.1 < next_ofs)
    (in_quotes : Bool) (out : List Piece) :
    (innerLoop isAlphanumeric token_ofs token_type next_ofs in_quotes out chars).next = none := by
  induction chars generalizing in_quotes out with
  | nil => rfl
  | cons ic chars ih =>
    obtain ⟨i, c⟩ := ic
    have hlt : i < next_ofs := hall (i, c) (List.mem_cons_self ..)
    rw [innerLoop]
    split
    · exact ih (fun ic hic => hall ic (List.mem_cons_of_mem _ hic)) _ _
    · rfl
    next new hleft =>
      have hturn := turn_text isAlphanumeric token_ofs token_type next_ofs in_quotes i c
      rw [hleft] at hturn
      rcases hturn with hsame | ⟨hle, -⟩
      · simp [Turn.text] at hsame
      · omega

end

theorem runToken_text (isAlphanumeric : Char → Bool) (token_ofs : Nat) (token_type : TokenType)
    (next_ofs : Nat) (h : Highlighting) :
    (runToken isAlphanumeric token_ofs token_type next_ofs h).text = h.text := by
  have hloop := innerLoop_text isAlphanumeric token_ofs token_type next_ofs false h.out h.rest
  unfold runToken Highlighting.text
  have hoff : textOf [.control Vt100.MODES_OFF] = [] := rfl
  rw [textOf_append, hoff, List.append_nil]
  exact hloop

theorem runToken_rest (isAlphanumeric : Char → Bool) (token_ofs : Nat) (token_type : TokenType)
    (next_ofs : Nat) (h : Highlighting) :
    (runToken isAlphanumeric token_ofs token_type next_ofs h).rest <:+ h.rest :=
  innerLoop_rest isAlphanumeric token_ofs token_type next_ofs false h.out h.rest

/-- **The outer loop** loses no character, and leaves none for a token behind the last one. -/
theorem outerLoop_text (isAlphanumeric : Char → Bool) {len_chars : Nat} :
    ∀ (offsets : List Nat) (types : List TokenType) (h : Highlighting),
    offsets.length = types.length → (∀ ic ∈ h.rest, ic.1 < len_chars) →
    (h.next = none ∨ offsets ≠ []) →
    (outerLoop isAlphanumeric len_chars offsets types h).text = h.text ∧
      (outerLoop isAlphanumeric len_chars offsets types h).next = none
  | [], [], h, _, _, hnext => ⟨rfl, hnext.resolve_right (by simp)⟩
  | token_ofs :: offsets, token_type :: types, h, hlen, hall, _ => by
    have hsuffix := runToken_rest isAlphanumeric token_ofs token_type
      (offsets.headD len_chars) h
    have hnext : (runToken isAlphanumeric token_ofs token_type (offsets.headD len_chars) h).next =
        none ∨ offsets ≠ [] := by
      cases offsets with
      | nil => exact .inl (innerLoop_next isAlphanumeric token_ofs token_type len_chars hall _ _)
      | cons => exact .inr (by simp)
    obtain ⟨htext, hend⟩ := outerLoop_text isAlphanumeric offsets types
      (runToken isAlphanumeric token_ofs token_type (offsets.headD len_chars) h)
      (Nat.succ.inj hlen) (fun ic hic => hall ic (hsuffix.subset hic)) hnext
    exact ⟨htext.trans (runToken_text isAlphanumeric token_ofs token_type _ h), hend⟩

/-! ## The whole output -/

variable {b : PromptBuffer}

/-- Erasing writes control sequences. -/
theorem erasePromptOutput_eq (h : b.cursor ≤ b.textBuffer.length) :
    ∃ out, b.erasePromptOutput = some out ∧ textOf out = [] := by
  have hlt := Rope.length_takeWhile_lt b.textBuffer b.cursor
  unfold PromptBuffer.erasePromptOutput
  rw [Rope.charToLine_eq h, Option.bind_eq_bind, Option.bind_some]
  dsimp only
  split
  · exact ⟨_, rfl, rfl⟩
  · rw [guard, if_pos hlt]
    refine ⟨_, rfl, ?_⟩
    have hlines : ∀ n, textOf (List.replicate n
        [Piece.control Vt100.CURSOR_UP, .control Vt100.CLEAR_LINE]).flatten = [] := by
      intro n
      refine textOf_controls fun p hp => ?_
      obtain ⟨ps, hps, hp⟩ := List.mem_flatten.mp hp
      rw [List.eq_of_mem_replicate hps] at hp
      rcases List.mem_cons.mp hp with rfl | hp
      · rfl
      · rw [List.mem_singleton.mp hp]
        rfl
    rw [textOf_append, hlines, List.append_nil, textOf_append]
    split <;> rfl

theorem moveCursorToOutput_eq (h : b.cursor ≤ b.textBuffer.length) {pos : Nat}
    (hpos : pos ≤ b.textBuffer.length) :
    ∃ out, b.moveCursorToOutput pos = some out ∧ textOf out = [] := by
  have hcol : ∀ i, sub i (b.textBuffer.lineStart i) = some (i - b.textBuffer.lineStart i) :=
    fun i => if_pos (Rope.lineStart_le _ i)
  unfold PromptBuffer.moveCursorToOutput
  rw [Rope.charToLine_eq h, Rope.charToLine_eq hpos]
  simp only [Option.bind_eq_bind, Option.bind_some, Rope.lineToChar_eq, hcol]
  refine ⟨_, rfl, ?_⟩
  rw [textOf_append]
  have hmoved : ∀ {p q : Prop} [Decidable p] [Decidable q] (n m : Nat) (d e : String),
      textOf (if p then [Vt100.moved n d] else if q then [Vt100.moved m e] else []) = [] := by
    intro p q _ _ n m d e
    split
    · rfl
    · split <;> rfl
  rw [hmoved, hmoved]
  rfl

/-- **Highlighting loses no text.** For every buffer and every tokens with as many types as offsets,
wherever the tokens begin: what is written, without the control sequences and the prompts, is the
text of the buffer, each character once and in order; no position outside of the text is asked for
if the cursor is within it; and the buffer is left as it was. -/
theorem highlight_sql_keeps_text (isAlphanumeric : Char → Bool) (b : PromptBuffer)
    (tokens : ScriptTokens) (htypes : tokens.offsets.length = tokens.types.length) :
    (b.cursor ≤ b.textBuffer.length → (b.highlightSql isAlphanumeric tokens).isSome) ∧
    ∀ b' out, b.highlightSql isAlphanumeric tokens = some (b', out) →
      textOf out = b.textBuffer ∧ b' = b := by
  by_cases hcursor : b.cursor ≤ b.textBuffer.length
  · obtain ⟨erased, herased, hnone⟩ := erasePromptOutput_eq hcursor
    have hend : ({ b with cursor := b.textBuffer.length } : PromptBuffer).cursor ≤
      b.textBuffer.length := Nat.le_refl _
    obtain ⟨moved, hmoved, hnone'⟩ := moveCursorToOutput_eq
      (b := { b with cursor := b.textBuffer.length }) hend hcursor
    have hback := PromptBuffer.moveCursorTo_eq
      (b := { b with cursor := b.textBuffer.length }) hend b.cursor
    rw [if_pos hcursor] at hback
    have hchars : (b.textBuffer.zipIdx.map fun ci => (ci.2, ci.1)).map Prod.snd = b.textBuffer := by
      rw [List.map_map]
      exact List.zipIdx_map_fst 0 b.textBuffer
    have hall : ∀ ic ∈ b.textBuffer.zipIdx.map (fun ci => (ci.2, ci.1)),
        ic.1 < b.textBuffer.length := by
      intro ic hic
      obtain ⟨ci, hci, rfl⟩ := List.mem_map.mp hic
      have := List.snd_lt_of_mem_zipIdx hci
      omega
    obtain ⟨htext, hnext⟩ := outerLoop_text isAlphanumeric tokens.offsets
      tokens.types ⟨none, b.textBuffer.zipIdx.map fun ci => (ci.2, ci.1),
        erased ++ [.prompt PROMPT_INIT]⟩ htypes hall (.inl rfl)
    unfold PromptBuffer.highlightSql
    rw [guard, if_pos htypes, herased, PromptBuffer.erasePrompt_eq hcursor]
    simp only [Option.bind_eq_bind, Option.bind_some, Option.pure_def, hmoved, hback]
    refine ⟨fun _ => rfl, fun b' out hout => ?_⟩
    obtain ⟨hb, hpieces⟩ := Prod.mk.inj (Option.some.inj hout)
    refine ⟨?_, hb.symm⟩
    -- the characters that no token has asked for follow those of the tokens
    generalize outerLoop isAlphanumeric b.textBuffer.length tokens.offsets tokens.types
      ⟨none, b.textBuffer.zipIdx.map fun ci => (ci.2, ci.1),
        erased ++ [.prompt PROMPT_INIT]⟩ = h at htext hnext hpieces
    have hrest : ∀ cs : List (Nat × Char),
        textOf (cs.map fun ic => emit ic.2) = cs.map Prod.snd := by
      intro cs
      induction cs with
      | nil => rfl
      | cons ic cs ih => rw [List.map_cons, textOf_cons, text_emit, ih]; rfl
    have hstart : textOf (erased ++ [.prompt PROMPT_INIT]) = [] := by
      rw [textOf_append, hnone]
      rfl
    have hoff : textOf [.control Vt100.MODES_OFF] = [] := rfl
    rw [Highlighting.text, Highlighting.rest, hnext, Highlighting.text, hstart] at htext
    rw [← hpieces, textOf_append, textOf_append, textOf_append, hrest, hnone', hoff,
      List.append_nil, List.append_nil]
    exact htext.trans hchars
  · have hpanic : b.highlightSql isAlphanumeric tokens = none := by
      unfold PromptBuffer.highlightSql PromptBuffer.erasePromptOutput
      rw [Rope.charToLine, if_neg hcursor]
      simp
    refine ⟨fun h => absurd h hcursor, fun b' out h => ?_⟩
    rw [hpanic] at h
    cases h

/-- `if 1` with a token of each word, one that begins where the last does, and one beyond the
end. -/
theorem highlight_sql_keeps_text_short :
    let b : PromptBuffer := ⟨['i', 'f', ' ', '1'], 4, 80⟩
    let tokens : ScriptTokens := ⟨[0, 3, 3, 9], [.Keyword, .NumericConstant, .Operator, .Comment]⟩
    ∃ out, b.highlightSql Char.isAlphanum tokens = some (b, out) ∧ textOf out = b.textBuffer := by
  intro b tokens
  obtain ⟨hsome, htext⟩ := highlight_sql_keeps_text Char.isAlphanum b tokens rfl
  obtain ⟨⟨b', out⟩, hout⟩ := Option.isSome_iff_exists.mp (hsome (by decide))
  obtain ⟨hkept, hsame⟩ := htext b' out hout
  exact ⟨out, by rw [hout, hsame], hkept⟩

example : (PromptBuffer.highlightSql Char.isAlphanum ⟨['i', 'f', ' ', '1'], 4, 80⟩
    ⟨[0, 3], [.Keyword, .NumericConstant]⟩).map (fun r => String.join (r.2.map Piece.render)) =
    some ("\x1b[2K\r\x1b[1mduckdb\x1b[m> \x1b[m\x1b[93m\x1b[1mif\x1b[m \x1b[m" ++
      "\x1b[m\x1b[35m\x1b[1m1\x1b[m\x1b[m") := by
  decide +kernel

end Haybarn.Shell
