import Haybarn.Lib.RingLog
import Haybarn.Lib.Run

/-!
# The history of the shell

`HistoryStore` (packages/duckdb-wasm-shell/src/utils/history_store.ts) keeps the last 1024 inputs
in an IndexedDB, from where the shell (crate/src/shell.rs) loads them when the page is opened. The
entry with number `n` has the key `n & 1023`, and `load` returns the entries in the order of their
keys, with the position at which the oldest one is meant to be. That position is
`min(nextEntryKey, 1024)`, which is behind the last entry: the shell never rotates what it is given,
and `history_survives_iff` says when that is right all the same.

Mirroring notes:
- A `push` is done before the next event; the transaction of one that is still running when the
  page is closed may be lost, which would be an input that has not been pushed. `when` is left out.
- The database opens, and is empty before the first page. Requests do not fail.
- `reload` is a new page: the store is constructed and opened, and what it loads goes to the shell.
- An index out of range is `none`. Numbers are below 2^53, where a `number` is exact.
-/

namespace Haybarn.History

open Haybarn.Lib

/-! ## The store -/

/-- `1 << HISTORY_SIZE_SHIFT` -/
def HISTORY_SIZE : Nat := 1024

structure LogInfo where
  nextEntryKey : Nat
  entryCount : Nat
  deriving DecidableEq, Repr

/-- What is kept when the page is closed. -/
structure Database where
  logEntries : List (Nat × String) := []
  logInfo : Option LogInfo := none

structure HistoryStore where
  nextEntryKey : Nat := 0
  entryCount : Nat := 0

namespace HistoryStore

/-- The constructor, and `open` with `loadMetadata`. -/
def opened (db : Database) : HistoryStore where
  nextEntryKey := (db.logInfo.map (·.nextEntryKey)).getD 0
  entryCount := (db.logInfo.map (·.entryCount)).getD 0

/-- The cursor goes over the entries in the order of their keys. -/
def load (s : HistoryStore) (db : Database) : List String × Nat :=
  if s.entryCount = 0 then ([], 0)
  else (db.logEntries.map (·.2), min s.nextEntryKey HISTORY_SIZE)

def push (s : HistoryStore) (db : Database) (input : String) : HistoryStore × Database :=
  let entryKey := s.nextEntryKey % HISTORY_SIZE
  let s := { s with
    nextEntryKey := s.nextEntryKey + 1
    entryCount := min (s.entryCount + 1) HISTORY_SIZE }
  (s, {
    logEntries := putKey entryKey input db.logEntries
    logInfo := some ⟨s.nextEntryKey, s.entryCount⟩ })

end HistoryStore

/-! ## The shell -/

def HISTORY_LENGTH : Nat := 1000

structure Shell where
  history : List String
  history_cursor : Nat
  /-- The text of the line that is edited. -/
  input : String := ""

namespace Shell

/-- `&history[cursor..history.len()]`, then `&history[0..cursor]` -/
def load_history (history : List String) (cursor : Nat) : Option Shell :=
  if cursor ≤ history.length then
    let h := history.drop cursor ++ history.take cursor
    some { history := h, history_cursor := h.length }
  else none

/-- The shell's part of `remember_command`. -/
def remember (s : Shell) (text : String) : Shell :=
  let history := s.history ++ [text]
  let history := if HISTORY_LENGTH < history.length then history.drop 1 else history
  { s with history, history_cursor := history.length }

def arrowUp (s : Shell) : Option Shell :=
  if 0 < s.history_cursor then
    s.history[s.history_cursor - 1]?.map fun text =>
      { s with history_cursor := s.history_cursor - 1, input := text }
  else some s

def arrowDown (s : Shell) : Option Shell :=
  if s.history_cursor < s.history.length then
    if s.history_cursor + 1 < s.history.length then
      s.history[s.history_cursor + 1]?.map fun text =>
        { s with history_cursor := s.history_cursor + 1, input := text }
    else some { s with history_cursor := s.history_cursor + 1, input := "" }
  else some s

end Shell

/-! ## Sessions -/

structure State where
  db : Database
  store : HistoryStore
  shell : Shell

inductive Event
  /-- The page is closed, and opened again. -/
  | reload
  /-- `remember_command` -/
  | command (text : String)
  | arrowUp
  | arrowDown
  deriving DecidableEq, Repr

/-- A page is opened. -/
def openPage (db : Database) : Option State :=
  let store := HistoryStore.opened db
  let (history, cursor) := store.load db
  (Shell.load_history history cursor).map fun shell => { db, store, shell }

def step (s : State) : Event → Option State
  | .reload => openPage s.db
  | .command text =>
    let (store, db) := s.store.push s.db text
    some { db, store, shell := s.shell.remember text }
  | .arrowUp => s.shell.arrowUp.map fun shell => { s with shell }
  | .arrowDown => s.shell.arrowDown.map fun shell => { s with shell }

/-- The first page: there are no entries. -/
def initial : State where
  db := {}
  store := {}
  shell := { history := [], history_cursor := 0 }

/-! ## What is wanted -/

def Event.input : Event → Option String
  | .command text => some text
  | _ => none

/-- The inputs of all sessions. -/
def inputs (es : List Event) : List String := es.filterMap Event.input

/-- After the events, a reload shows the most recent inputs, with the cursor behind the last. -/
def Survives (es : List Event) : Prop :=
  ∃ s, Run step Always initial (es ++ [.reload]) s ∧
    s.shell.history = recent HISTORY_SIZE (inputs es) ∧
    s.shell.history_cursor = s.shell.history.length

/-- The keys are in the order of the inputs, or it cannot be seen that they are not. -/
def InOrder (xs : List String) : Prop :=
  xs.length ≤ HISTORY_SIZE ∨ ∀ i < HISTORY_SIZE,
    (recent HISTORY_SIZE xs)[i]? = (recent HISTORY_SIZE xs)[(i + xs.length) % HISTORY_SIZE]?

/-! ## What is stored -/

theorem size_pos : 0 < HISTORY_SIZE := by decide

/-- The inputs so far are in the ring, and are counted in the database and in the store. -/
structure Stored (xs : List String) (s : State) : Prop where
  ring : ∃ slots, s.db.logEntries = enum 0 slots ∧ InRing HISTORY_SIZE xs slots
  info : s.db.logInfo = if xs.length = 0 then none
    else some ⟨xs.length, min xs.length HISTORY_SIZE⟩
  next : s.store.nextEntryKey = xs.length
  count : s.store.entryCount = min xs.length HISTORY_SIZE

theorem stored_initial : Stored [] initial where
  ring := ⟨[], rfl, .nil⟩
  info := rfl
  next := rfl
  count := rfl

variable {xs : List String} {s s' : State}

theorem Stored.shell (h : Stored xs s) (shell : Shell) : Stored xs { s with shell } :=
  ⟨h.ring, h.info, h.next, h.count⟩

theorem Stored.push (h : Stored xs s) (text : String) (shell : Shell) :
    Stored (xs ++ [text])
      { db := (s.store.push s.db text).2, store := (s.store.push s.db text).1, shell } := by
  obtain ⟨slots, hentries, hring⟩ := h.ring
  have hlen : (xs ++ [text]).length = xs.length + 1 := by simp
  have hpos := size_pos
  refine ⟨⟨ringWrite HISTORY_SIZE slots xs.length text, ?_, hring.write size_pos text⟩, ?_, ?_, ?_⟩
  · show putKey (s.store.nextEntryKey % HISTORY_SIZE) text s.db.logEntries = _
    rw [h.next, hentries]
    have hslots := hring.length
    unfold ringWrite
    split
    next hlt =>
      -- the key of the new entry is the number of entries
      have hkey := putKey_end text slots 0
      rw [hslots, Nat.min_eq_left (by omega), Nat.zero_add] at hkey
      rw [Nat.mod_eq_of_lt hlt, hkey]
    next hge =>
      have hmod := Nat.mod_lt xs.length hpos
      have hkey := putKey_set text slots 0 (xs.length % HISTORY_SIZE) (by omega)
      rw [Nat.zero_add] at hkey
      exact hkey
  · rw [if_neg (by omega), hlen]
    show some (LogInfo.mk (s.store.nextEntryKey + 1) (min (s.store.entryCount + 1) _)) = _
    rw [h.next, h.count]
    congr 2
    omega
  · show s.store.nextEntryKey + 1 = _
    rw [h.next, hlen]
  · show min (s.store.entryCount + 1) HISTORY_SIZE = _
    rw [h.count, hlen]
    omega

/-- A page that is opened shows the slots, from the first to the last. -/
theorem Stored.openPage (h : Stored xs s) : ∃ t slots, History.openPage s.db = some t ∧
    Stored xs t ∧ InRing HISTORY_SIZE xs slots ∧ t.shell.history = slots ∧
    t.shell.history_cursor = slots.length := by
  obtain ⟨slots, hentries, hring⟩ := h.ring
  have hpos := size_pos
  have hlen := hring.length
  have hinfo := h.info
  unfold History.openPage HistoryStore.load HistoryStore.opened
  by_cases hempty : xs.length = 0
  · rw [if_pos hempty] at hinfo
    have hnil : slots = [] := List.eq_nil_of_length_eq_zero (by omega)
    subst hnil
    refine ⟨⟨s.db, ⟨0, 0⟩, ⟨[], 0, ""⟩⟩, [], ?_, ⟨⟨[], hentries, hring⟩, h.info, hempty.symm, ?_⟩,
      hring, rfl, rfl⟩
    · rw [hinfo]
      rfl
    · rw [hempty]
      rfl
  · rw [if_neg hempty] at hinfo
    refine ⟨⟨s.db, ⟨xs.length, min xs.length HISTORY_SIZE⟩, ⟨slots, slots.length, ""⟩⟩, slots,
      ?_, ⟨⟨slots, hentries, hring⟩, h.info, rfl, rfl⟩, hring, rfl, rfl⟩
    rw [hinfo]
    dsimp only [Option.map_some, Option.getD_some]
    rw [if_neg (by omega), hentries, map_snd_enum]
    dsimp only
    unfold Shell.load_history
    rw [if_pos (by omega), ← hlen, List.drop_length, List.take_length, List.nil_append]
    rfl

/-! ## Runs -/

/-- What is stored, and a cursor in the history or behind its end. -/
structure Sound (xs : List String) (s : State) : Prop where
  stored : Stored xs s
  cursor : s.shell.history_cursor ≤ s.shell.history.length

theorem remember_cursor (s : Shell) (text : String) :
    (s.remember text).history_cursor ≤ (s.remember text).history.length := Nat.le_refl _

/-- No event fails, and every one keeps the invariant. -/
theorem Sound.step (h : Sound xs s) (e : Event) :
    ∃ t, History.step s e = some t ∧ Sound (xs ++ e.input.toList) t := by
  have hcursor := h.cursor
  cases e with
  | reload =>
    obtain ⟨t, slots, hopen, hstored, -, hhistory, hbehind⟩ := h.stored.openPage
    refine ⟨t, hopen, ?_, ?_⟩
    · simpa [Event.input] using hstored
    · rw [hhistory, hbehind]
  | command text =>
    exact ⟨_, rfl, h.stored.push text _, remember_cursor s.shell text⟩
  | arrowUp =>
    simp only [History.step, Shell.arrowUp, Event.input, Option.toList_none, List.append_nil]
    split
    next hpos =>
      rw [List.getElem?_eq_getElem (by omega)]
      refine ⟨_, rfl, h.stored.shell _, ?_⟩
      show s.shell.history_cursor - 1 ≤ s.shell.history.length
      omega
    next => exact ⟨_, rfl, h⟩
  | arrowDown =>
    simp only [History.step, Shell.arrowDown, Event.input, Option.toList_none, List.append_nil]
    split
    next hlt =>
      split
      next hin =>
        rw [List.getElem?_eq_getElem hin]
        exact ⟨_, rfl, h.stored.shell _, hlt⟩
      next => exact ⟨_, rfl, h.stored.shell _, hlt⟩
    next => exact ⟨_, rfl, h⟩

/-- Every sequence of events is possible: no index is out of range. -/
theorem exists_run (es : List Event) :
    ∃ s, Run step Always initial es s ∧ Sound (inputs es) s := by
  induction es using List.reverseRecOn with
  | nil => exact ⟨initial, .nil, stored_initial, Nat.le_refl _⟩
  | append_singleton es e ih =>
    obtain ⟨s, hrun, hsound⟩ := ih
    obtain ⟨t, hstep, ht⟩ := hsound.step e
    refine ⟨t, hrun.snoc trivial hstep, ?_⟩
    have hinputs : inputs (es ++ [e]) = inputs es ++ e.input.toList := by
      unfold inputs
      rw [List.filterMap_append]
      cases h : e.input <;> simp [h]
    rw [hinputs]
    exact ht

/-- A reload shows the slots. -/
theorem run_reload (es : List Event) : ∃ t slots, Run step Always initial (es ++ [.reload]) t ∧
    InRing HISTORY_SIZE (inputs es) slots ∧ t.shell.history = slots ∧
    t.shell.history_cursor = slots.length := by
  obtain ⟨s, hrun, hsound⟩ := exists_run es
  obtain ⟨t, slots, hopen, -, hring, hhistory, hcursor⟩ := hsound.stored.openPage
  exact ⟨t, slots, hrun.snoc trivial hopen, hring, hhistory, hcursor⟩

/-- **A reload shows the most recent inputs in the order in which they were entered exactly when
there have been 1024 at most, or when rotating the last 1024 of them by their number changes
nothing.** -/
theorem history_survives_iff (es : List Event) : Survives es ↔ InOrder (inputs es) := by
  obtain ⟨t, slots, hrun, hring, hhistory, hcursor⟩ := run_reload es
  refine Iff.trans ?_ hring.eq_recent_iff
  constructor
  · rintro ⟨s, hs, hrecent, -⟩
    obtain rfl := hs.unique hrun
    rw [← hhistory]
    exact hrecent
  · intro hrecent
    exact ⟨t, hrun, hhistory.trans hrecent, by rw [hcursor, hhistory]⟩

/-- When one input has been pushed more than there are slots, it is in the first slot. -/
theorem first_of_slots {xs slots : List String} {x : String}
    (h : InRing HISTORY_SIZE (xs ++ [x]) slots) (hxs : xs.length = HISTORY_SIZE) :
    slots[0]? = some x := by
  have hlen : (xs ++ [x]).length = HISTORY_SIZE + 1 := by
    rw [List.length_append, hxs, List.length_singleton]
  have hslot := h.slot HISTORY_SIZE (by omega) (by have := size_pos; omega)
  rw [Nat.mod_self, List.getElem?_append_right (by omega), hxs, Nat.sub_self] at hslot
  exact hslot

/-- 1024 times the same input, and then another one: after a reload the last input is the first
of the history. -/
theorem newest_input_comes_first :
    ¬ Survives (List.replicate 1024 (.command "a") ++ [.command "b"]) := by
  have hlen : (List.replicate 1024 "a").length = HISTORY_SIZE := List.length_replicate
  have ha : Event.input (.command "a") = some "a" := rfl
  have hinputs : inputs (List.replicate 1024 (.command "a") ++ [.command "b"]) =
      List.replicate 1024 "a" ++ ["b"] := by
    unfold inputs
    rw [List.filterMap_append, List.filterMap_replicate_of_some ha]
    rfl
  rintro ⟨s, hs, hrecent, -⟩
  obtain ⟨t, slots, hrun, hring, hhistory, -⟩ :=
    run_reload (List.replicate 1024 (.command "a") ++ [.command "b"])
  obtain rfl := hs.unique hrun
  rw [hinputs] at hrecent hring
  have hfirst := first_of_slots hring hlen
  have hone : (List.replicate 1024 "a" ++ ["b"]).length - HISTORY_SIZE = 1 := by
    rw [List.length_append, hlen, List.length_singleton]
    rfl
  rw [← hhistory, hrecent, recent, List.getElem?_drop, hone,
    List.getElem?_append_left (by rw [hlen]; decide),
    List.getElem?_replicate_of_lt (by decide)] at hfirst
  exact absurd (Option.some.inj hfirst) (by decide)

end Haybarn.History
