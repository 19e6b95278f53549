import Haybarn.Lib.MarkedText

/-!
# The prompt of the shell

The shell keeps the input in a rope (`text_buffer`), together with the artificial line wraps of the
terminal, which are paragraph separators in the same rope. `insert_char` adds a wrap when the row
is full; every edit that is not at the end writes the whole rope anew (`reflow`), with the old
wraps dropped and new ones put where rows are full. `collect` takes the wraps out.

Mirroring notes:
- A rope is the list of its characters; positions are numbers of characters. What `ropey` counts
  as a line break is more than the newline and the wraps (`isLineBreak`), and CR LF is one.
- `none` is where the code panics: a position outside of the rope, a failed assertion, or a
  subtraction that goes below zero (which only a debug build notices; a release build wraps).
  Subtractions under a comparison of the same two numbers are left out.
- The output buffer is only ever written here, and is left out; so is `highlight_sql`, which only
  writes to it and puts the cursor back.
-/

namespace Haybarn.Shell

/-! ## Ropes -/

abbrev Rope := List Char

def sub (a b : Nat) : Option Nat := if b ≤ a then some (a - b) else none

def isLineBreak (c : Char) : Bool :=
  c ∈ ['\n', '\u000b', '\u000c', '\r', '\u0085', '\u2028', '\u2029']

/-- The character at `k` ends a line. -/
def Rope.endsLine (r : Rope) (k : Nat) : Bool :=
  match r[k]? with
  | some c => isLineBreak c && !(c == '\r' && r[k + 1]? == some '\n')
  | none => false

/-- The positions behind the line breaks. -/
def Rope.lineBreaks (r : Rope) : List Nat :=
  ((List.range r.length).filter r.endsLine).map (· + 1)

/-- `len_lines` -/
def Rope.lenLines (r : Rope) : Nat := r.lineBreaks.length + 1

/-- `char_to_line` -/
def Rope.charToLine (r : Rope) (i : Nat) : Option Nat :=
  if i ≤ r.length then some (r.lineBreaks.takeWhile (· ≤ i)).length else none

/-- `line_to_char` -/
def Rope.lineToChar (r : Rope) : Nat → Option Nat
  | 0 => some 0
  | l + 1 => (r.lineBreaks ++ [r.length])[l]?

def Rope.line (r : Rope) (l : Nat) : Option Rope :=
  if l < r.lenLines then do
    let start ← r.lineToChar l
    let stop ← r.lineToChar (l + 1)
    return (r.take stop).drop start
  else none

def Rope.insert (r : Rope) (i : Nat) (s : List Char) : Option Rope :=
  if i ≤ r.length then some (r.take i ++ s ++ r.drop i) else none

def Rope.remove (r : Rope) (start stop : Nat) : Option Rope :=
  if start ≤ stop ∧ stop ≤ r.length then some (r.take start ++ r.drop stop) else none

/-- `chars_at(i).prev()` -/
def Rope.prev (r : Rope) (i : Nat) : Option (Option Char) :=
  if i ≤ r.length then some (r.take i).getLast? else none

/-- `chars_at(i).next()` -/
def Rope.next (r : Rope) (i : Nat) : Option (Option Char) :=
  if i ≤ r.length then some r[i]? else none

/-! ## The buffer -/

def promptWidth : Nat := 8

def tabWidth : Nat := 2

def paragraphSeperator : Char := '\u2029'

structure PromptBuffer where
  textBuffer : Rope
  cursor : Nat
  terminalWidth : Nat
  deriving DecidableEq, Repr

/-- `default`, then `configure`. -/
def PromptBuffer.initial (width : Nat) : PromptBuffer := ⟨[], 0, width⟩

variable (b : PromptBuffer)

def PromptBuffer.configure (width : Nat) : PromptBuffer := { b with terminalWidth := width }

def PromptBuffer.collect : List Char := Lib.strip paragraphSeperator b.textBuffer

def PromptBuffer.startNew : PromptBuffer := { b with textBuffer := [], cursor := 0 }

def PromptBuffer.erasePrompt : Option PromptBuffer := do
  let lineIdx ← b.textBuffer.charToLine b.cursor
  let lineCount := b.textBuffer.lenLines
  if lineCount = 1 then return { b with cursor := 0 }
  -- assert!(line_idx < line_count)
  guard (lineIdx < lineCount)
  let _ ← sub lineCount 1 >>= fun last => sub last lineIdx
  return { b with cursor := 0 }

def PromptBuffer.moveCursorTo (pos : Nat) : Option PromptBuffer := do
  let srcLineId ← b.textBuffer.charToLine b.cursor
  let dstLineId ← b.textBuffer.charToLine pos
  let _ ← sub b.cursor (← b.textBuffer.lineToChar srcLineId)
  let _ ← sub pos (← b.textBuffer.lineToChar dstLineId)
  return { b with cursor := pos }

def PromptBuffer.moveCursorToEnd : Option PromptBuffer := b.moveCursorTo b.textBuffer.length

/-- The loop of `reflow`. -/
def reflowed (terminalWidth : Nat) : Nat → List Char → List Char
  | _, [] => []
  | lineLength, c :: cs =>
    if c = paragraphSeperator then reflowed terminalWidth lineLength cs
    else if c = '\n' then c :: reflowed terminalWidth promptWidth cs
    else if lineLength + 1 + 1 ≥ terminalWidth then
      c :: paragraphSeperator :: reflowed terminalWidth promptWidth cs
    else c :: reflowed terminalWidth (lineLength + 1) cs

def PromptBuffer.reflow (modify : Rope → Option Rope) : Option PromptBuffer := do
  let b ← b.erasePrompt
  let text ← modify b.textBuffer
  let reflowedTxt := reflowed b.terminalWidth promptWidth text
  return { b with textBuffer := reflowedTxt, cursor := reflowedTxt.length }

def PromptBuffer.replace (input : List Char) : Option PromptBuffer :=
  b.reflow fun _ => some input

/-- `s.len()` -/
def utf8Len (s : List Char) : Nat := (s.map Char.utf8Size).sum

def PromptBuffer.insertText (s : List Char) : Option PromptBuffer := do
  let pos := b.cursor
  let b ← b.reflow (·.insert pos s)
  b.moveCursorTo (pos + utf8Len s)

/-- Insert characters at the cursor, and move it behind them. -/
def PromptBuffer.put (s : List Char) : Option PromptBuffer := do
  let text ← b.textBuffer.insert b.cursor s
  return { b with textBuffer := text, cursor := b.cursor + s.length }

def PromptBuffer.insertNewline : Option PromptBuffer := do
  let b ← b.put ['\n']
  let pos := b.cursor
  if pos ≠ b.textBuffer.length then
    let b ← b.reflow some
    b.moveCursorTo pos
  else return b

def PromptBuffer.moveCursorLeft : Option PromptBuffer := do
  match ← b.textBuffer.prev b.cursor with
  | some c =>
    if c = '\n' ∨ c = paragraphSeperator then
      let lineId ← b.textBuffer.charToLine (← sub b.cursor 1)
      let line ← b.textBuffer.line lineId
      let _ ← sub (promptWidth + line.length) 1
    return { b with cursor := ← sub b.cursor 1 }
  | none => return b

def PromptBuffer.moveCursorRight : Option PromptBuffer := do
  match ← b.textBuffer.next b.cursor with
  | some _ => return { b with cursor := b.cursor + 1 }
  | none => return b

def PromptBuffer.insertChar (c : Char) : Option PromptBuffer := do
  if b.cursor = b.textBuffer.length then
    let lineId ← b.textBuffer.charToLine b.cursor
    match b.textBuffer.line lineId with
    | some line =>
      if promptWidth + line.length + 1 ≥ b.terminalWidth then
        let b ← b.put [paragraphSeperator]
        b.put [c]
      else b.put [c]
    | none => return b
  else
    let pos := b.cursor
    let b ← b.reflow (·.insert pos [c])
    b.moveCursorTo (pos + 1)

def PromptBuffer.erasePreviousChar : Option PromptBuffer := do
  match ← b.textBuffer.prev b.cursor with
  | some c =>
    let pos := b.cursor
    if c = '\n' then
      let prev ← sub pos 1
      let b ← b.reflow (·.remove prev pos)
      b.moveCursorTo prev
    else if c = paragraphSeperator then
      let start ← sub (max pos 2) 2
      let b ← b.reflow (·.remove start pos)
      b.moveCursorTo start
    else if pos = b.textBuffer.length then
      let prev ← sub pos 1
      let text ← b.textBuffer.remove prev pos
      return { b with textBuffer := text, cursor := prev }
    else
      let prev ← sub pos 1
      let b ← b.reflow (·.remove prev pos)
      b.moveCursorTo prev
  | none => return b

/-- The loop of `insert_tab`. -/
def PromptBuffer.insertSpaces (b : PromptBuffer) : Nat → Option PromptBuffer
  | 0 => some b
  | n + 1 => do
    let b ← b.put [' ']
    b.insertSpaces n

def PromptBuffer.insertTab : Option PromptBuffer := do
  let line ← b.textBuffer.charToLine b.cursor
  let col ← sub (promptWidth + b.cursor) (← b.textBuffer.lineToChar line)
  let ub ← sub b.terminalWidth 1
  let room ← sub ub col
  b.insertSpaces (min room tabWidth)

/-! ## Events -/

inductive Key
  | tab
  | enter
  | backspace
  | arrowLeft
  | arrowRight
  | char (c : Char)
  | other
  deriving DecidableEq, Repr

/-- `is_ascii_control` -/
def isAsciiControl (c : Char) : Bool := c.toNat < 0x20 || c.toNat == 0x7f

def PromptBuffer.consume : Key → Option PromptBuffer
  | .tab => b.insertTab
  | .enter => b.insertNewline
  | .backspace => b.erasePreviousChar
  | .arrowLeft => b.moveCursorLeft
  | .arrowRight => b.moveCursorRight
  | .char c => if !isAsciiControl c then b.insertChar c else some b
  | .other => some b

/-- What the shell does with its prompt: a key, a paste, an entry of the history, ctrl-A and
ctrl-E, a new prompt. -/
inductive Event
  | key (k : Key)
  | insertText (s : List Char)
  | replace (input : List Char)
  | moveCursorToStart
  | moveCursorToEnd
  | startNew
  | configure (width : Nat)
  deriving DecidableEq, Repr

def PromptBuffer.step : Event → Option PromptBuffer
  | .key k => b.consume k
  | .insertText s => b.insertText s
  | .replace input => b.replace input
  | .moveCursorToStart => b.moveCursorTo 0
  | .moveCursorToEnd => b.moveCursorToEnd
  | .startNew => some b.startNew
  | .configure width => some (b.configure width)

end Haybarn.Shell
