import Haybarn.Shell.LineEditor

/-!
# The runs in which the prompt follows the editor

One lemma per event says that the step shows the edited text and cursor exactly when it is careful.
An edit at the end of the input always is. In the middle it depends on the wraps before the cursor:
they must be as many as the new layout has there, and a paste must have as many bytes as the
characters and the new wraps it brings. The first paste of a text that is not ASCII shows that not
every run is careful.
-/

namespace Haybarn.Shell

open Haybarn.Lib

variable {b : PromptBuffer}

/-! ## Insertions -/

theorem shows_reflow_insert (h : b.cursor ≤ b.textBuffer.length) (s : List Char) (pos : Nat) :
    Shows (b.reflow (fun r => r.insert b.cursor s) >>= fun b => b.moveCursorTo pos)
        (b.view.apply (.insert s))
      ↔ paragraphSeperator ∉ s ∧ StandsAt b.terminalWidth (b.before ++ s) pos := by
  have hmodify : b.textBuffer.insert b.cursor s
      = some (b.textBuffer.take b.cursor ++ s ++ b.textBuffer.drop b.cursor) := if_pos h
  have htext : strip paragraphSeperator
        (b.textBuffer.take b.cursor ++ s ++ b.textBuffer.drop b.cursor)
      = b.before ++ strip paragraphSeperator s ++ b.after := by
    rw [strip_append, strip_append]
    rfl
  rw [PromptBuffer.apply_insert]
  constructor
  · intro hshows
    have hsame : strip paragraphSeperator s = s := by
      have hall := PromptBuffer.text_of_shows_reflow h hmodify hshows
      rw [htext] at hall
      exact (List.append_cancel_left (List.append_cancel_right hall)).symm
    rw [hsame] at htext
    exact ⟨(strip_eq_self_iff _).mp hsame,
      (PromptBuffer.shows_reflow h hmodify htext pos).mp hshows⟩
  · rintro ⟨hmark, hstands⟩
    rw [strip_eq_self _ hmark] at htext
    exact (PromptBuffer.shows_reflow h hmodify htext pos).mpr hstands

theorem shows_insertText (h : b.cursor ≤ b.textBuffer.length) (s : List Char) :
    Shows (b.insertText s) (b.view.apply (.insert s)) ↔ b.Careful (.insertText s) :=
  shows_reflow_insert h s _

theorem shows_insertNewline (h : b.cursor ≤ b.textBuffer.length) :
    Shows b.insertNewline (b.view.apply (.insert ['\n'])) ↔ b.Careful (.key .enter) := by
  have hnewline : strip paragraphSeperator ['\n'] = ['\n'] := by decide
  obtain ⟨b', hput, hwidth, hcursor, hlength, hbefore, hafter⟩ := b.put_spec h ['\n']
  have hshows := b.shows_put h ['\n']
  rw [hnewline] at hshows hbefore
  rw [List.length_singleton] at hcursor hlength
  unfold PromptBuffer.insertNewline
  rw [hput, Option.bind_eq_bind, Option.bind_some]
  rw [hput] at hshows
  dsimp only
  split
  · next hend =>
    have hnotEnd : ¬ b.atEnd := by
      unfold PromptBuffer.atEnd
      omega
    have htext : strip paragraphSeperator b'.textBuffer = b.before ++ ['\n'] ++ b.after := by
      rw [strip_cut _ b'.textBuffer b'.cursor, ← hbefore, ← hafter]
      rfl
    have hreflow := @PromptBuffer.shows_reflow b' (by omega) some _ rfl _ _ htext b'.cursor
    rw [PromptBuffer.apply_insert]
    refine hreflow.trans ?_
    rw [hwidth, hcursor]
    exact (or_iff_right hnotEnd).symm
  · next hend =>
    refine iff_of_true hshows (Or.inl ?_)
    unfold PromptBuffer.atEnd
    omega

theorem shows_insertChar_atEnd (hend : b.atEnd) (c : Char) :
    Shows (b.insertChar c) (b.view.apply (.insert [c])) ↔ c ≠ paragraphSeperator := by
  have h : b.cursor ≤ b.textBuffer.length := Nat.le_of_eq hend
  have hmark : c ≠ paragraphSeperator ↔ paragraphSeperator ∉ [c] := by
    rw [List.mem_singleton]
    exact ne_comm
  rw [hmark, ← insert_strip_iff (b := b)]
  -- The character is inserted, after a wrap or right away.
  have hshows : Shows (b.insertChar c) (b.view.apply (.insert (strip paragraphSeperator [c]))) := by
    obtain ⟨line, hline⟩ := Rope.line_isSome b.textBuffer b.cursor
    unfold PromptBuffer.insertChar
    rw [if_pos (show b.cursor = b.textBuffer.length from hend), Rope.charToLine_eq h,
      Option.bind_eq_bind, Option.bind_some, hline]
    dsimp only
    split
    · obtain ⟨b', hput, -, hcursor, hlength, hbefore, hafter⟩ := b.put_spec h [paragraphSeperator]
      rw [hput, Option.bind_eq_bind, Option.bind_some]
      have hview : b'.view = b.view := by
        rw [b'.view_eq, b.view_eq, hbefore, hafter, strip_cons_self, strip_nil, List.append_nil]
      rw [← hview]
      exact b'.shows_put (by omega) [c]
    · exact b.shows_put h [c]
  constructor
  · exact hshows.unique
  · intro he
    rw [← he]
    exact hshows

theorem shows_insertChar (h : b.cursor ≤ b.textBuffer.length) {c : Char}
    (hc : isAsciiControl c = false) :
    Shows (b.insertChar c) (b.view.apply (.insert [c])) ↔ b.Careful (.key (.char c)) := by
  have hcareful : b.Careful (.key (.char c)) ↔ c ≠ paragraphSeperator
      ∧ (b.atEnd ∨ StandsAt b.terminalWidth (b.before ++ [c]) (b.cursor + 1)) := by
    show _ ∨ _ ↔ _
    rw [hc]
    simp
  rw [hcareful]
  by_cases hend : b.atEnd
  · rw [shows_insertChar_atEnd hend]
    simp [hend]
  · have hmark : c ≠ paragraphSeperator ↔ paragraphSeperator ∉ [c] := by
      rw [List.mem_singleton]
      exact ne_comm
    unfold PromptBuffer.insertChar
    rw [if_neg (show ¬ b.cursor = b.textBuffer.length from hend), hmark, or_iff_right hend]
    exact shows_reflow_insert h [c] (b.cursor + 1)

/-! ## Tabs -/

theorem Editor.insert_insert {ed : Editor} (h : ed.cursor ≤ ed.text.length) (s t : List Char) :
    (ed.apply (.insert s)).apply (.insert t) = ed.apply (.insert (s ++ t)) := by
  have hlength : (ed.text.take ed.cursor ++ s).length = ed.cursor + s.length := by
    rw [List.length_append, List.length_take, Nat.min_eq_left h]
  show Editor.mk
    (List.take (ed.cursor + s.length) _ ++ t ++ List.drop (ed.cursor + s.length) _) _ = _
  rw [← hlength]
  dsimp only [Editor.apply]
  rw [List.take_left, List.drop_left, List.length_append, Nat.add_assoc,
    List.append_assoc (List.take _ _) s t]

theorem shows_insertSpaces (n : Nat) :
    ∀ {b : PromptBuffer}, b.cursor ≤ b.textBuffer.length →
      Shows (b.insertSpaces n) (b.view.apply (.insert (List.replicate n ' '))) := by
  induction n with
  | zero =>
    intro b h
    refine ⟨b, rfl, h, ?_⟩
    rw [b.apply_insert, b.view_eq, List.replicate_zero, List.append_nil]
  | succ n ih =>
    intro b h
    obtain ⟨b', hput, -, hcursor, hlength, -, -⟩ := b.put_spec h [' ']
    have hspace : strip paragraphSeperator [' '] = [' '] := by decide
    have hview : b'.view = b.view.apply (.insert [' ']) := by
      obtain ⟨b'', hb'', -, hview⟩ := b.shows_put h [' ']
      rw [hput] at hb''
      injection hb'' with hb''
      rw [hb'', hview, hspace]
    have hnext := ih (b := b') (by omega)
    rw [hview, Editor.insert_insert (logical_le _ _ _)] at hnext
    unfold PromptBuffer.insertSpaces
    rw [hput]
    exact hnext

theorem shows_insertTab (h : b.cursor ≤ b.textBuffer.length) :
    Shows b.insertTab (b.view.apply (Event.edit b (.key .tab))) ↔ b.Careful (.key .tab) := by
  have hcol : sub (promptWidth + b.cursor) (b.textBuffer.lineStart b.cursor) = some b.column :=
    if_pos (Nat.le_trans (Rope.lineStart_le _ _) (Nat.le_add_left _ _))
  unfold PromptBuffer.insertTab
  rw [Rope.charToLine_eq h]
  simp only [Option.bind_eq_bind, Option.bind_some, Rope.lineToChar_eq, hcol]
  show Shows (Option.bind (sub b.terminalWidth 1) _) _ ↔ b.column + 1 ≤ b.terminalWidth
  by_cases hroom : b.column + 1 ≤ b.terminalWidth
  · have hub : sub b.terminalWidth 1 = some (b.terminalWidth - 1) := if_pos (by omega)
    have hrest : sub (b.terminalWidth - 1) b.column = some (b.terminalWidth - 1 - b.column) :=
      if_pos (by omega)
    rw [hub, Option.bind_some, hrest]
    exact iff_of_true (shows_insertSpaces _ h) hroom
  · -- One of the two subtractions goes below zero.
    refine iff_of_false ?_ hroom
    rintro ⟨b', hb', -⟩
    unfold sub at hb'
    split at hb'
    · rw [Option.bind_some, if_neg (by omega)] at hb'
      cases hb'
    · cases hb'

/-! ## Backspace -/

/-- The character before a position. -/
theorem Rope.take_of_getLast {r : Rope} {p : Nat} (h : p ≤ r.length) {c : Char}
    (hc : (r.take p).getLast? = some c) : 0 < p ∧ r.take p = r.take (p - 1) ++ [c] := by
  have hpos : 0 < p := by
    rw [Nat.pos_iff_ne_zero]
    rintro rfl
    cases hc
  refine ⟨hpos, ?_⟩
  have hlast := List.dropLast_append_getLast? c hc
  rw [List.dropLast_eq_take, List.take_take, List.length_take] at hlast
  rw [← hlast]
  congr 2
  omega

theorem Rope.take_of_getLast_none {r : Rope} {p : Nat} (hc : (r.take p).getLast? = none) :
    r.take p = [] := List.getLast?_eq_none_iff.mp hc

theorem standsAt_nil (width q : Nat) : StandsAt width [] q ↔ q = 0 := by
  have hwraps : wraps width [] = 0 := by simp [wraps]
  unfold StandsAt
  rw [List.dropLast_nil, hwraps, List.length_nil]
  omega

theorem shows_reflow_remove (h : b.cursor ≤ b.textBuffer.length) {start : Nat}
    (hstart : start ≤ b.cursor)
    (hbefore : strip paragraphSeperator (b.textBuffer.take start) = b.before.dropLast) :
    Shows (b.reflow (fun r => r.remove start b.cursor) >>= fun b => b.moveCursorTo start)
        (b.view.apply .erase)
      ↔ StandsAt b.terminalWidth b.before.dropLast start := by
  have hmodify : b.textBuffer.remove start b.cursor
      = some (b.textBuffer.take start ++ b.textBuffer.drop b.cursor) := if_pos ⟨hstart, h⟩
  rw [b.apply_erase]
  refine PromptBuffer.shows_reflow h hmodify ?_ start
  rw [strip_append, hbefore]
  rfl

/-- With nothing but wraps before the cursor there is nothing to erase. -/
theorem shows_remove_wraps (h : b.cursor ≤ b.textBuffer.length) (hbefore : b.before = [])
    {start : Nat} (hstart : start ≤ b.cursor) :
    Shows (b.reflow (fun r => r.remove start b.cursor) >>= fun b => b.moveCursorTo start)
        (b.view.apply .erase)
      ↔ start = 0 := by
  have hempty : strip paragraphSeperator (b.textBuffer.take start) = [] := by
    have hfront := List.take_prefix start (b.textBuffer.take b.cursor)
    rw [List.take_take, Nat.min_eq_left hstart] at hfront
    exact List.sublist_nil.mp (hbefore ▸ hfront.sublist.filter _)
  rw [shows_reflow_remove h hstart (by rw [hempty, hbefore]; rfl), hbefore]
  exact standsAt_nil _ start

/-- A wrap before the cursor is removed together with what stands before it. -/
theorem shows_erase_wrap (h : b.cursor ≤ b.textBuffer.length)
    (hwrap : (b.textBuffer.take b.cursor).getLast? = some paragraphSeperator) :
    Shows (b.reflow (fun r => r.remove (max b.cursor 2 - 2) b.cursor)
          >>= fun b' => b'.moveCursorTo (max b.cursor 2 - 2))
        (b.view.apply .erase)
      ↔ b.Careful (.key .backspace) := by
  obtain ⟨hpos, htake⟩ := Rope.take_of_getLast h hwrap
  have hbefore : b.before = strip paragraphSeperator (b.textBuffer.take (b.cursor - 1)) := by
    unfold PromptBuffer.before
    rw [htake, strip_append, strip_cons_self, strip_nil, List.append_nil]
  simp only [PromptBuffer.Careful, hwrap, if_true]
  cases hprev : (b.textBuffer.take (b.cursor - 1)).getLast? with
  | none =>
    -- Nothing but the wrap is before the cursor.
    have hnil := Rope.take_of_getLast_none hprev
    have hlength := congrArg List.length hnil
    rw [List.length_take, List.length_nil] at hlength
    rw [hnil, strip_nil] at hbefore
    have hremove := shows_remove_wraps h hbefore (show max b.cursor 2 - 2 ≤ b.cursor by omega)
    exact hremove.trans (by simp only [iff_true]; omega)
  | some d =>
    obtain ⟨hpos', htake'⟩ := Rope.take_of_getLast (by omega) hprev
    have hstart : max b.cursor 2 - 2 = b.cursor - 2 := by omega
    rw [hstart]
    rw [htake', strip_append, show b.cursor - 1 - 1 = b.cursor - 2 by omega] at hbefore
    dsimp only
    split
    · next hd =>
      rw [hd, strip_cons_self, strip_nil, List.append_nil] at hbefore
      by_cases hnil : b.before = []
      · have hremove := shows_remove_wraps h hnil (Nat.sub_le b.cursor 2)
        exact hremove.trans (by omega)
      · -- The two wraps are removed, and no character of the text.
        refine iff_of_false (fun hshows => hnil ?_) (fun htwo => hnil ?_)
        · have htext := PromptBuffer.text_of_shows_reflow h (if_pos ⟨Nat.sub_le _ _, h⟩) hshows
          rw [b.apply_erase, strip_append, ← hbefore] at htext
          have hlength := congrArg List.length (List.append_cancel_right htext)
          rw [List.length_dropLast] at hlength
          exact List.length_eq_zero_iff.mp (by omega)
        · rw [hbefore, htwo]
          rfl
    · next hd =>
      rw [strip_cons_of_ne _ hd, strip_nil] at hbefore
      exact shows_reflow_remove h (Nat.sub_le _ _) (by rw [hbefore, List.dropLast_concat])

theorem shows_erasePreviousChar (h : b.cursor ≤ b.textBuffer.length) :
    Shows b.erasePreviousChar (b.view.apply .erase) ↔ b.Careful (.key .backspace) := by
  unfold PromptBuffer.erasePreviousChar
  rw [Rope.prev, if_pos h, Option.bind_eq_bind, Option.bind_some]
  cases hc : (b.textBuffer.take b.cursor).getLast? with
  | none =>
    have hbefore : b.before = [] := by
      rw [PromptBuffer.before, Rope.take_of_getLast_none hc, strip_nil]
    refine iff_of_true ⟨b, rfl, h, ?_⟩ (by simp [PromptBuffer.Careful, hc])
    rw [b.view_eq, ← b.view_eq, b.apply_erase, b.view_eq, hbefore]
    rfl
  | some c =>
    obtain ⟨hpos, htake⟩ := Rope.take_of_getLast h hc
    have hsub : sub b.cursor 1 = some (b.cursor - 1) := if_pos hpos
    have hdrop : c ≠ paragraphSeperator →
        strip paragraphSeperator (b.textBuffer.take (b.cursor - 1)) = b.before.dropLast := by
      intro hne
      unfold PromptBuffer.before
      rw [htake, strip_append, strip_cons_of_ne _ hne, strip_nil, List.dropLast_concat]
    dsimp only
    by_cases hmark : c = paragraphSeperator
    · subst hmark
      have hmax : sub (max b.cursor 2) 2 = some (max b.cursor 2 - 2) := if_pos (by omega)
      rw [if_neg (by decide), if_pos rfl, hmax, Option.bind_eq_bind, Option.bind_some]
      exact shows_erase_wrap h hc
    · simp only [PromptBuffer.Careful, hc, if_neg hmark]
      have hremove := shows_reflow_remove h (Nat.sub_le b.cursor 1) (hdrop hmark)
      by_cases hnewline : c = '\n'
      · rw [if_pos hnewline, hsub]
        refine hremove.trans ?_
        simp [hnewline]
      · rw [if_neg hnewline, hsub]
        by_cases hend : b.atEnd
        · rw [if_pos (show b.cursor = b.textBuffer.length from hend)]
          refine iff_of_true ?_ (Or.inl ⟨hnewline, hend⟩)
          have hcut : b.textBuffer.remove (b.cursor - 1) b.cursor
              = some (b.textBuffer.take (b.cursor - 1) ++ b.textBuffer.drop b.cursor) :=
            if_pos ⟨Nat.sub_le b.cursor 1, h⟩
          rw [Option.bind_eq_bind, Option.bind_some, hcut]
          have hlength : (b.textBuffer.take (b.cursor - 1)).length = b.cursor - 1 := by
            rw [List.length_take]
            omega
          refine ⟨_, rfl, ?_, ?_⟩
          · show b.cursor - 1 ≤ (_ ++ _ : List Char).length
            rw [List.length_append, hlength]
            omega
          · rw [PromptBuffer.view_eq, b.apply_erase, ← hdrop hmark]
            unfold PromptBuffer.before PromptBuffer.after
            dsimp only
            have htake' : (b.textBuffer.take (b.cursor - 1) ++ b.textBuffer.drop b.cursor).take
                (b.cursor - 1) = b.textBuffer.take (b.cursor - 1) :=
              List.take_left' hlength
            have hdrop' : (b.textBuffer.take (b.cursor - 1) ++ b.textBuffer.drop b.cursor).drop
                (b.cursor - 1) = b.textBuffer.drop b.cursor :=
              List.drop_left' hlength
            rw [htake', hdrop']
        · rw [if_neg (show ¬ b.cursor = b.textBuffer.length from hend)]
          refine hremove.trans ?_
          simp [hend]

/-! ## Arrows -/

theorem logical_take {r : Rope} {p : Nat} {c : Char} (h : r.take p = r.take (p - 1) ++ [c]) :
    logical paragraphSeperator r p
      = logical paragraphSeperator r (p - 1) + if c = paragraphSeperator then 0 else 1 := by
  unfold logical
  rw [h, strip_append, List.length_append]
  split
  · next hc => rw [hc, strip_cons_self, strip_nil, List.length_nil]
  · next hc => rw [strip_cons_of_ne _ hc, strip_nil, List.length_singleton]

theorem PromptBuffer.moveCursorLeft_eq (h : b.cursor ≤ b.textBuffer.length) {c : Char}
    (hc : (b.textBuffer.take b.cursor).getLast? = some c) :
    b.moveCursorLeft = some { b with cursor := b.cursor - 1 } := by
  obtain ⟨hpos, -⟩ := Rope.take_of_getLast h hc
  have hsub : sub b.cursor 1 = some (b.cursor - 1) := if_pos hpos
  obtain ⟨line, hline⟩ := Rope.line_isSome b.textBuffer (b.cursor - 1)
  have hcol : sub (promptWidth + line.length) 1 = some (promptWidth + line.length - 1) :=
    if_pos (by unfold promptWidth; omega)
  unfold PromptBuffer.moveCursorLeft
  rw [Rope.prev, if_pos h, Option.bind_eq_bind, Option.bind_some, hc]
  have hline' : b.textBuffer.charToLine (b.cursor - 1) = some _ := Rope.charToLine_eq (by omega)
  simp [hsub, hline', hline, hcol]

theorem shows_moveCursorLeft (h : b.cursor ≤ b.textBuffer.length) :
    Shows b.moveCursorLeft (b.view.apply .left) ↔ b.Careful (.key .arrowLeft) := by
  show _ ↔ (b.textBuffer.take b.cursor).getLast? ≠ some paragraphSeperator ∨ b.before = []
  cases hc : (b.textBuffer.take b.cursor).getLast? with
  | none =>
    have hstay : b.moveCursorLeft = some b := by
      unfold PromptBuffer.moveCursorLeft
      rw [Rope.prev, if_pos h, hc]
      rfl
    have hzero : logical paragraphSeperator b.textBuffer b.cursor = 0 := by
      rw [logical, Rope.take_of_getLast_none hc]
      rfl
    rw [hstay]
    refine iff_of_true ⟨b, rfl, h, ?_⟩ (Or.inl (by simp))
    show b.view = ⟨b.collect, logical _ _ _ - 1⟩
    unfold PromptBuffer.view
    rw [hzero]
  | some c =>
    obtain ⟨hpos, htake⟩ := Rope.take_of_getLast h hc
    have hlogical := logical_take htake
    have hbefore : b.before = [] ↔ logical paragraphSeperator b.textBuffer b.cursor = 0 :=
      List.length_eq_zero_iff.symm
    have hmoved : Shows (some { b with cursor := b.cursor - 1 }) (b.view.apply .left)
        ↔ logical paragraphSeperator b.textBuffer (b.cursor - 1)
          = logical paragraphSeperator b.textBuffer b.cursor - 1 := by
      constructor
      · rintro ⟨b', hb', -, hview⟩
        injection hb' with hb'
        subst hb'
        exact congrArg Editor.cursor hview
      · intro hcursor
        exact ⟨_, rfl, Nat.le_trans (Nat.sub_le _ _) h, congrArg (Editor.mk b.collect) hcursor⟩
    rw [PromptBuffer.moveCursorLeft_eq h hc, hmoved, hbefore, Ne, Option.some_inj]
    split at hlogical
    · next hmark =>
      simp only [hmark, not_true_eq_false, false_or]
      omega
    · next hmark =>
      simp only [hmark, not_false_eq_true, true_or, iff_true]
      omega

theorem shows_moveCursorRight (h : b.cursor ≤ b.textBuffer.length) :
    Shows b.moveCursorRight (b.view.apply .right) ↔ b.Careful (.key .arrowRight) := by
  show _ ↔ b.textBuffer[b.cursor]? ≠ some paragraphSeperator ∨ b.after = []
  have htotal : b.collect.length
      = logical paragraphSeperator b.textBuffer b.cursor + b.after.length := by
    have hcut := congrArg List.length (strip_cut paragraphSeperator b.textBuffer b.cursor)
    rw [List.length_append] at hcut
    exact hcut
  unfold PromptBuffer.moveCursorRight
  rw [Rope.next, if_pos h, Option.bind_eq_bind, Option.bind_some]
  cases hc : b.textBuffer[b.cursor]? with
  | none =>
    have hend : b.after = [] := by
      rw [PromptBuffer.after, List.drop_eq_nil_of_le (List.getElem?_eq_none_iff.mp hc), strip_nil]
    refine iff_of_true ⟨b, rfl, h, ?_⟩ (Or.inl (by simp))
    rw [hend, List.length_nil] at htotal
    show b.view = ⟨b.collect, min (logical _ _ _ + 1) b.collect.length⟩
    unfold PromptBuffer.view
    congr 1
    omega
  | some c =>
    obtain ⟨hlt, hget⟩ := List.getElem?_eq_some_iff.mp hc
    have htake : b.textBuffer.take (b.cursor + 1)
        = b.textBuffer.take (b.cursor + 1 - 1) ++ [c] := by
      rw [List.take_succ_eq_append_getElem hlt, hget, Nat.add_sub_cancel]
    have hlogical := logical_take htake
    rw [Nat.add_sub_cancel] at hlogical
    have hafter : c ≠ paragraphSeperator → b.after.length ≠ 0 := by
      intro hne
      unfold PromptBuffer.after
      rw [List.drop_eq_getElem_cons hlt, hget, strip_cons_of_ne _ hne, List.length_cons]
      omega
    have hnil : b.after = [] ↔ b.after.length = 0 := List.length_eq_zero_iff.symm
    have hmoved : Shows (some { b with cursor := b.cursor + 1 }) (b.view.apply .right)
        ↔ logical paragraphSeperator b.textBuffer (b.cursor + 1)
          = min (logical paragraphSeperator b.textBuffer b.cursor + 1) b.collect.length := by
      constructor
      · rintro ⟨b', hb', -, hview⟩
        injection hb' with hb'
        subst hb'
        exact congrArg Editor.cursor hview
      · intro hcursor
        exact ⟨_, rfl, hlt, congrArg (Editor.mk b.collect) hcursor⟩
    refine hmoved.trans ?_
    rw [hnil, Ne, Option.some_inj]
    split at hlogical
    · next hmark =>
      simp only [hmark, not_true_eq_false, false_or]
      omega
    · next hmark =>
      have := hafter hmark
      simp only [hmark, not_false_eq_true, true_or, iff_true]
      omega

/-! ## Runs -/

theorem shows_moveCursorTo (h : b.cursor ≤ b.textBuffer.length) {pos : Nat}
    (hpos : pos ≤ b.textBuffer.length) :
    Shows (b.moveCursorTo pos) ⟨b.collect, logical paragraphSeperator b.textBuffer pos⟩ := by
  rw [PromptBuffer.moveCursorTo_eq h, if_pos hpos]
  exact ⟨_, rfl, hpos, rfl⟩

theorem shows_replace (h : b.cursor ≤ b.textBuffer.length) (input : List Char) :
    Shows (b.replace input) (b.view.apply (.setText input)) ↔ paragraphSeperator ∉ input := by
  rw [← strip_eq_self_iff]
  unfold PromptBuffer.replace
  rw [@PromptBuffer.reflow_eq b h (fun _ => some input) input rfl]
  have hview : (PromptBuffer.mk (reflowed b.terminalWidth promptWidth input)
        (reflowed b.terminalWidth promptWidth input).length b.terminalWidth).view
      = ⟨strip paragraphSeperator input, (strip paragraphSeperator input).length⟩ := by
    show Editor.mk (strip _ _) (logical _ _ _) = _
    rw [logical_length, strip_reflowed]
  constructor
  · rintro ⟨b', hb', -, hshown⟩
    injection hb' with hb'
    rw [← hb', hview] at hshown
    exact congrArg Editor.text hshown
  · intro hsame
    rw [hsame] at hview
    exact ⟨_, rfl, Nat.le_refl _, hview⟩

/-- **One step**: it shows the edit exactly when it is careful. -/
theorem shows_step (h : b.cursor ≤ b.textBuffer.length) (e : Event) :
    Shows (b.step e) (b.view.apply (e.edit b)) ↔ b.Careful e := by
  cases e with
  | key k =>
    cases k with
    | tab => exact shows_insertTab h
    | enter => exact shows_insertNewline h
    | backspace => exact shows_erasePreviousChar h
    | arrowLeft => exact shows_moveCursorLeft h
    | arrowRight => exact shows_moveCursorRight h
    | char c =>
      show Shows (if !isAsciiControl c then b.insertChar c else some b)
        (b.view.apply (if isAsciiControl c then .nothing else .insert [c])) ↔ _
      cases hc : isAsciiControl c with
      | true => exact iff_of_true ⟨b, rfl, h, rfl⟩ (Or.inl hc)
      | false => exact shows_insertChar h hc
    | other => exact iff_of_true ⟨b, rfl, h, rfl⟩ trivial
  | insertText s => exact shows_insertText h s
  | replace input => exact shows_replace h input
  | moveCursorToStart => exact iff_of_true (shows_moveCursorTo h (Nat.zero_le _)) trivial
  | moveCursorToEnd =>
    have hshows := shows_moveCursorTo h (Nat.le_refl _)
    rw [logical_length] at hshows
    exact iff_of_true hshows trivial
  | startNew => exact iff_of_true ⟨_, rfl, Nat.zero_le _, rfl⟩ trivial
  | configure width => exact iff_of_true ⟨_, rfl, h, rfl⟩ trivial

theorem follows_iff_careful (es : List Event) :
    ∀ {b : PromptBuffer}, b.cursor ≤ b.textBuffer.length →
      (Follows b b.view es ↔ CarefulRun b es) := by
  induction es with
  | nil => exact fun _ => Iff.rfl
  | cons e es ih =>
    intro b h
    unfold Follows CarefulRun
    rw [← shows_step h e]
    constructor
    · rintro ⟨b', hstep, hle, htext, hcursor, hrest⟩
      have hview : b'.view = b.view.apply (e.edit b) := by
        show Editor.mk _ _ = _
        rw [htext, hcursor]
      refine ⟨⟨b', hstep, hle, hview⟩, fun b'' hb'' => ?_⟩
      rw [hstep] at hb''
      injection hb'' with hb''
      rw [← hview] at hrest
      exact hb'' ▸ (ih hle).mp hrest
    · rintro ⟨⟨b', hstep, hle, hview⟩, hrest⟩
      refine ⟨b', hstep, hle, congrArg Editor.text hview, congrArg Editor.cursor hview, ?_⟩
      rw [← hview]
      exact (ih hle).mpr (hrest b' hstep)

/-- **The prompt follows the editor through a run exactly when every step is careful**, for every
terminal width. -/
theorem prompt_follows_editor_iff (width : Nat) (es : List Event) :
    Follows (.initial width) ⟨[], 0⟩ es ↔ CarefulRun (.initial width) es :=
  follows_iff_careful es (Nat.le_refl 0)

/-- Pasting one letter of two bytes leaves the cursor outside of the text. -/
theorem paste_leaves_the_text :
    ¬ ∀ (width : Nat) (es : List Event), Follows (.initial width) ⟨[], 0⟩ es := by
  intro h
  obtain ⟨b, hstep, -⟩ := h 80 [.insertText ['é']]
  have hnone : (PromptBuffer.initial 80).step (.insertText ['é']) = none := by decide
  rw [hnone] at hstep
  cases hstep

end Haybarn.Shell
