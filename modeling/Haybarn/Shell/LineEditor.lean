import Haybarn.Shell.Layout

/-!
# The prompt as a line editor

To its user the prompt is a text with a cursor in it (`Editor`), and every event is an edit of that
(`Event.edit`). The buffer shows the text without the wraps, and the cursor at the number of
characters before it. After an edit that is not at the end the buffer is laid out anew, and the
cursor is put where the characters stood before, counted with the wraps that are gone and, for a
paste, in bytes. `Careful` says when this is the right place.

**The buffer follows the editor through a run exactly when every step is careful**
(`follows_iff`): it never panics, its cursor stays in the text, and text and cursor are those of
the editor.
-/

namespace Haybarn.Shell

open Haybarn.Lib

/-! ## The editor -/

structure Editor where
  text : List Char
  cursor : Nat
  deriving DecidableEq, Repr

inductive Edit
  | nothing
  | insert (s : List Char)
  | erase
  | left
  | right
  | start
  | finish
  | setText (s : List Char)
  deriving DecidableEq, Repr

def Editor.apply (ed : Editor) : Edit → Editor
  | .nothing => ed
  | .insert s => ⟨ed.text.take ed.cursor ++ s ++ ed.text.drop ed.cursor, ed.cursor + s.length⟩
  | .erase => ⟨ed.text.take (ed.cursor - 1) ++ ed.text.drop ed.cursor, ed.cursor - 1⟩
  | .left => { ed with cursor := ed.cursor - 1 }
  | .right => { ed with cursor := min (ed.cursor + 1) ed.text.length }
  | .start => { ed with cursor := 0 }
  | .finish => { ed with cursor := ed.text.length }
  | .setText s => ⟨s, s.length⟩

/-! ## What the buffer shows -/

/-- The start of the line of a position. -/
def Rope.lineStart (r : Rope) (i : Nat) : Nat :=
  ((r.lineBreaks.takeWhile (· ≤ i)).getLast?).getD 0

section

variable (b : PromptBuffer)

def PromptBuffer.before : List Char := strip paragraphSeperator (b.textBuffer.take b.cursor)

def PromptBuffer.after : List Char := strip paragraphSeperator (b.textBuffer.drop b.cursor)

/-- The column of the cursor on the terminal. -/
def PromptBuffer.column : Nat := promptWidth + b.cursor - b.textBuffer.lineStart b.cursor

def PromptBuffer.view : Editor :=
  ⟨b.collect, logical paragraphSeperator b.textBuffer b.cursor⟩

def PromptBuffer.atEnd : Prop := b.cursor = b.textBuffer.length

instance : Decidable b.atEnd := inferInstanceAs (Decidable (_ = _))

/-- An event as an edit. A tab stands for as many of its two spaces as the row has room for. -/
def Event.edit : Event → Edit
  | .key .tab => .insert (List.replicate (min (b.terminalWidth - 1 - b.column) tabWidth) ' ')
  | .key .enter => .insert ['\n']
  | .key .backspace => .erase
  | .key .arrowLeft => .left
  | .key .arrowRight => .right
  | .key (.char c) => if isAsciiControl c then .nothing else .insert [c]
  | .key .other => .nothing
  | .insertText s => .insert s
  | .replace input => .setText input
  | .moveCursorToStart => .start
  | .moveCursorToEnd => .finish
  | .startNew => .setText []
  | .configure _ => .nothing

/-- When the buffer does with an event what the editor does. -/
def PromptBuffer.Careful : Event → Prop
  -- The column of the cursor is on the terminal.
  | .key .tab => b.column + 1 ≤ b.terminalWidth
  | .key .enter => b.atEnd ∨ StandsAt b.terminalWidth (b.before ++ ['\n']) (b.cursor + 1)
  | .key (.char c) =>
    isAsciiControl c = true ∨ (c ≠ paragraphSeperator
      ∧ (b.atEnd ∨ StandsAt b.terminalWidth (b.before ++ [c]) (b.cursor + 1)))
  | .key .backspace =>
    match (b.textBuffer.take b.cursor).getLast? with
    | none => True
    | some c =>
      if c = paragraphSeperator then
        match (b.textBuffer.take (b.cursor - 1)).getLast? with
        | none => True
        | some d =>
          if d = paragraphSeperator then b.cursor = 2
          else StandsAt b.terminalWidth b.before.dropLast (b.cursor - 2)
      else (c ≠ '\n' ∧ b.atEnd) ∨ StandsAt b.terminalWidth b.before.dropLast (b.cursor - 1)
  -- The cursor does not step over a wrap only.
  | .key .arrowLeft =>
    (b.textBuffer.take b.cursor).getLast? ≠ some paragraphSeperator ∨ b.before = []
  | .key .arrowRight => b.textBuffer[b.cursor]? ≠ some paragraphSeperator ∨ b.after = []
  | .insertText s =>
    paragraphSeperator ∉ s
      ∧ StandsAt b.terminalWidth (b.before ++ s) (b.cursor + utf8Len s)
  | .replace input => paragraphSeperator ∉ input
  | .key .other | .moveCursorToStart | .moveCursorToEnd | .startNew | .configure _ => True

end

/-- The step gives a buffer with its cursor in the text that shows the editor. -/
def Shows (o : Option PromptBuffer) (ed : Editor) : Prop :=
  ∃ b, o = some b ∧ b.cursor ≤ b.textBuffer.length ∧ b.view = ed

/-- The buffer shows the editor after each event of a run. -/
def Follows : PromptBuffer → Editor → List Event → Prop
  | _, _, [] => True
  | b, ed, e :: es =>
    ∃ b', b.step e = some b' ∧ b'.cursor ≤ b'.textBuffer.length
      ∧ b'.collect = (ed.apply (e.edit b)).text
      ∧ logical paragraphSeperator b'.textBuffer b'.cursor = (ed.apply (e.edit b)).cursor
      ∧ Follows b' (ed.apply (e.edit b)) es

/-- Every step of a run is careful. -/
def CarefulRun : PromptBuffer → List Event → Prop
  | _, [] => True
  | b, e :: es => b.Careful e ∧ ∀ b', b.step e = some b' → CarefulRun b' es

/-! ## Ropes -/

section

variable {r : Rope} {i : Nat}

theorem Rope.charToLine_eq (h : i ≤ r.length) :
    r.charToLine i = some (r.lineBreaks.takeWhile (· ≤ i)).length := if_pos h

theorem Rope.length_takeWhile_lt (r : Rope) (i : Nat) :
    (r.lineBreaks.takeWhile (· ≤ i)).length < r.lenLines := by
  have := (List.takeWhile_prefix (fun p => decide (p ≤ i)) (l := r.lineBreaks)).length_le
  unfold Rope.lenLines
  omega

theorem Rope.lineStart_le (r : Rope) (i : Nat) : r.lineStart i ≤ i := by
  unfold Rope.lineStart
  cases h : (r.lineBreaks.takeWhile (· ≤ i)).getLast? with
  | none => exact Nat.zero_le i
  | some p =>
    have hp := List.mem_takeWhile_imp (List.mem_of_getLast? h)
    simpa using hp

theorem Rope.lineToChar_eq (r : Rope) (i : Nat) :
    r.lineToChar (r.lineBreaks.takeWhile (· ≤ i)).length = some (r.lineStart i) := by
  unfold Rope.lineStart
  rw [List.getLast?_eq_getElem?]
  have hfront := List.takeWhile_prefix (fun p => decide (p ≤ i)) (l := r.lineBreaks)
  cases h : (r.lineBreaks.takeWhile (· ≤ i)).length with
  | zero =>
    rw [List.length_eq_zero_iff.mp h]
    rfl
  | succ l =>
    have hlt : l < (r.lineBreaks.takeWhile (· ≤ i)).length := by omega
    have hlt' : l < r.lineBreaks.length := Nat.lt_of_lt_of_le hlt hfront.length_le
    show (r.lineBreaks ++ [r.length])[l]? = _
    rw [List.getElem?_append_left hlt', Nat.add_sub_cancel, List.getElem?_eq_getElem hlt,
      Option.getD_some, List.getElem?_eq_getElem hlt']
    rw [hfront.getElem hlt]

theorem Rope.line_isSome (r : Rope) (i : Nat) :
    ∃ line, r.line (r.lineBreaks.takeWhile (· ≤ i)).length = some line := by
  have hlt := r.length_takeWhile_lt i
  have hstop : (r.lineBreaks.takeWhile (· ≤ i)).length < (r.lineBreaks ++ [r.length]).length := by
    rw [List.length_append, List.length_singleton]
    exact hlt
  have hstop' : r.lineToChar ((r.lineBreaks.takeWhile (· ≤ i)).length + 1)
      = some ((r.lineBreaks ++ [r.length])[(r.lineBreaks.takeWhile (· ≤ i)).length]) :=
    List.getElem?_eq_getElem hstop
  unfold Rope.line
  rw [if_pos hlt, r.lineToChar_eq i, hstop']
  exact ⟨_, rfl⟩

end

/-! ## The operations -/

section

variable {b : PromptBuffer}

theorem PromptBuffer.erasePrompt_eq (h : b.cursor ≤ b.textBuffer.length) :
    b.erasePrompt = some { b with cursor := 0 } := by
  have hlt := Rope.length_takeWhile_lt b.textBuffer b.cursor
  unfold PromptBuffer.erasePrompt
  rw [Rope.charToLine_eq h, Option.bind_eq_bind, Option.bind_some]
  dsimp only
  split
  · rfl
  · have hone : sub b.textBuffer.lenLines 1 = some (b.textBuffer.lenLines - 1) :=
      if_pos (by omega)
    have hdown : ∀ l, l < b.textBuffer.lenLines → ∃ n, sub (b.textBuffer.lenLines - 1) l = some n :=
      fun l hl => ⟨_, if_pos (by omega)⟩
    obtain ⟨n, hn⟩ := hdown _ hlt
    simp [guard, hlt, hone, hn]

/-- The columns are never below zero. -/
theorem PromptBuffer.moveCursorTo_eq (h : b.cursor ≤ b.textBuffer.length) (pos : Nat) :
    b.moveCursorTo pos
      = if pos ≤ b.textBuffer.length then some { b with cursor := pos } else none := by
  have hcol : ∀ i, sub i (b.textBuffer.lineStart i) = some (i - b.textBuffer.lineStart i) :=
    fun i => if_pos (Rope.lineStart_le _ i)
  unfold PromptBuffer.moveCursorTo
  rw [Rope.charToLine_eq h]
  split
  · next hpos =>
    rw [Rope.charToLine_eq hpos]
    simp [Rope.lineToChar_eq, hcol]
  · next hpos =>
    simp [Rope.charToLine, hpos]

theorem PromptBuffer.reflow_eq (h : b.cursor ≤ b.textBuffer.length) {modify : Rope → Option Rope}
    {text : Rope} (hmodify : modify b.textBuffer = some text) :
    b.reflow modify = some { b with
      textBuffer := reflowed b.terminalWidth promptWidth text
      cursor := (reflowed b.terminalWidth promptWidth text).length } := by
  unfold PromptBuffer.reflow
  rw [PromptBuffer.erasePrompt_eq h]
  simp [hmodify]

theorem PromptBuffer.view_eq : b.view = ⟨b.before ++ b.after, b.before.length⟩ := by
  unfold PromptBuffer.view PromptBuffer.collect PromptBuffer.before PromptBuffer.after logical
  rw [← strip_cut]

theorem PromptBuffer.take_view : b.view.text.take b.view.cursor = b.before :=
  take_logical paragraphSeperator b.textBuffer b.cursor

theorem PromptBuffer.drop_view : b.view.text.drop b.view.cursor = b.after :=
  drop_logical paragraphSeperator b.textBuffer b.cursor

theorem PromptBuffer.apply_insert (s : List Char) :
    b.view.apply (.insert s) = ⟨b.before ++ s ++ b.after, (b.before ++ s).length⟩ := by
  show Editor.mk _ _ = _
  rw [b.take_view, b.drop_view, List.length_append]
  rfl

theorem PromptBuffer.apply_erase :
    b.view.apply .erase = ⟨b.before.dropLast ++ b.after, b.before.dropLast.length⟩ := by
  have htake : b.view.text.take (b.view.cursor - 1) = b.before.dropLast := by
    rw [List.dropLast_eq_take, ← b.take_view, List.take_take, List.length_take]
    have := logical_le paragraphSeperator b.textBuffer b.cursor
    show b.view.text.take (logical _ _ _ - 1) = _
    congr 1
    show _ = min (min (logical _ _ _) (strip _ _).length - 1) (logical _ _ _)
    omega
  show Editor.mk _ _ = _
  rw [htake, b.drop_view, List.length_dropLast]
  rfl

/-- **A rewrite of the buffer shows the text up to `s` before the cursor exactly when it puts the
cursor where the new layout has the end of `s`.** -/
theorem PromptBuffer.shows_reflow (h : b.cursor ≤ b.textBuffer.length)
    {modify : Rope → Option Rope} {text : Rope} (hmodify : modify b.textBuffer = some text)
    {s t : List Char} (htext : strip paragraphSeperator text = s ++ t) (pos : Nat) :
    Shows (b.reflow modify >>= fun b => b.moveCursorTo pos) ⟨s ++ t, s.length⟩
      ↔ StandsAt b.terminalWidth s pos := by
  have hmark : paragraphSeperator ∉ s ++ t := htext ▸ notMem_strip _ text
  rw [← standsAt_iff b.terminalWidth hmark pos, ← htext, reflowed_strip,
    PromptBuffer.reflow_eq h hmodify, Option.bind_eq_bind, Option.bind_some,
    PromptBuffer.moveCursorTo_eq (Nat.le_refl _)]
  dsimp only
  constructor
  · rintro ⟨b', hb', hle, hview⟩
    split at hb'
    · next hpos =>
      injection hb' with hb'
      subst hb'
      exact ⟨hpos, congrArg Editor.cursor hview⟩
    · cases hb'
  · rintro ⟨hpos, hlogical⟩
    refine ⟨_, if_pos hpos, hpos, ?_⟩
    show Editor.mk (strip _ _) _ = _
    rw [strip_reflowed, hlogical]

/-- Whatever a rewrite shows, it shows the text that was written. -/
theorem PromptBuffer.text_of_shows_reflow (h : b.cursor ≤ b.textBuffer.length)
    {modify : Rope → Option Rope} {text : Rope} (hmodify : modify b.textBuffer = some text)
    {pos : Nat} {ed : Editor}
    (hshows : Shows (b.reflow modify >>= fun b => b.moveCursorTo pos) ed) :
    ed.text = strip paragraphSeperator text := by
  rw [PromptBuffer.reflow_eq h hmodify, Option.bind_eq_bind, Option.bind_some,
    PromptBuffer.moveCursorTo_eq (Nat.le_refl _)] at hshows
  obtain ⟨b', hb', -, rfl⟩ := hshows
  dsimp only at hb'
  split at hb'
  · injection hb' with hb'
    subst hb'
    exact strip_reflowed b.terminalWidth text promptWidth
  · cases hb'

/-- Inserting a text that has no wraps in it. -/
theorem insert_strip_iff (s : List Char) :
    b.view.apply (.insert (strip paragraphSeperator s)) = b.view.apply (.insert s)
      ↔ paragraphSeperator ∉ s := by
  rw [← strip_eq_self_iff]
  refine ⟨fun h => ?_, fun h => by rw [h]⟩
  have hlength : b.view.cursor + (strip paragraphSeperator s).length = b.view.cursor + s.length :=
    congrArg Editor.cursor h
  exact List.filter_sublist.eq_of_length (by unfold strip at hlength; omega)

theorem PromptBuffer.put_eq (h : b.cursor ≤ b.textBuffer.length) (s : List Char) :
    ∃ b', b.put s = some b' ∧ b'.terminalWidth = b.terminalWidth
      ∧ b'.textBuffer = b.textBuffer.take b.cursor ++ s ++ b.textBuffer.drop b.cursor
      ∧ b'.cursor = b.cursor + s.length := by
  unfold PromptBuffer.put Rope.insert
  rw [if_pos h]
  exact ⟨_, rfl, rfl, rfl, rfl⟩

/-- What `put` leaves before and behind the cursor. -/
theorem PromptBuffer.put_spec (h : b.cursor ≤ b.textBuffer.length) (s : List Char) :
    ∃ b', b.put s = some b' ∧ b'.terminalWidth = b.terminalWidth
      ∧ b'.cursor = b.cursor + s.length
      ∧ b'.textBuffer.length = b.textBuffer.length + s.length
      ∧ b'.before = b.before ++ strip paragraphSeperator s ∧ b'.after = b.after := by
  obtain ⟨b', hput, hwidth, htext, hcursor⟩ := b.put_eq h s
  have hlength : (b.textBuffer.take b.cursor ++ s).length = b'.cursor := by
    rw [List.length_append, List.length_take, hcursor]
    omega
  refine ⟨b', hput, hwidth, hcursor, ?_, ?_, ?_⟩
  · rw [htext, List.length_append, hlength, hcursor, List.length_drop]
    omega
  · unfold PromptBuffer.before
    rw [htext, ← hlength, List.take_left, strip_append]
  · unfold PromptBuffer.after
    rw [htext, ← hlength, List.drop_left]

theorem PromptBuffer.shows_put (h : b.cursor ≤ b.textBuffer.length) (s : List Char) :
    Shows (b.put s) (b.view.apply (.insert (strip paragraphSeperator s))) := by
  obtain ⟨b', hput, -, hcursor, hlength, hbefore, hafter⟩ := b.put_spec h s
  refine ⟨b', hput, by omega, ?_⟩
  rw [PromptBuffer.view_eq, hbefore, hafter, PromptBuffer.apply_insert]

theorem Shows.unique {o : Option PromptBuffer} {ed ed' : Editor} (h : Shows o ed)
    (h' : Shows o ed') : ed = ed' := by
  obtain ⟨b, rfl, -, rfl⟩ := h
  obtain ⟨b', hb, -, rfl⟩ := h'
  injection hb with hb
  rw [hb]

end

end Haybarn.Shell
