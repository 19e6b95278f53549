import Mathlib

/-!
# Regular expressions

The part of ECMAScript's regular expressions that has a language: character classes, groups,
alternatives, quantifiers, and the assertions `^`, `$` and `\b`. There are no back references and no
look-around, so whether there is a match does not depend on the order in which a matcher tries the
alternatives, and a lazy quantifier stands for the same texts as a greedy one.

`Matches s r i j` says that `r` matches the text `s` from position `i` to position `j`; the
assertions are why positions are needed. `ends` computes the positions `j`, and
`mem_ends_iff` says that it does. `parse` reads an expression from its text, with one character at
a time and a stack of open groups, so that what is parsed in front of a piece of the text does not
depend on it (`parseFrom_append`).
-/

namespace Haybarn.Lib

/-- A member of a character class. -/
inductive ClassItem
  | single (c : Char)
  /-- `\s` -/
  | space
  /-- `\S` -/
  | notSpace
  deriving DecidableEq, Repr

/-- ECMAScript's white space and line terminators. -/
def isSpace (c : Char) : Bool :=
  c = ' ' || ('\t' ≤ c && c ≤ '\r') || c.toNat = 0xA0 || c.toNat = 0xFEFF || c.toNat = 0x1680 ||
    (0x2000 ≤ c.toNat && c.toNat ≤ 0x200A) || c.toNat = 0x2028 || c.toNat = 0x2029 ||
    c.toNat = 0x202F || c.toNat = 0x205F || c.toNat = 0x3000

/-- What `.` does not match. -/
def isLineTerminator (c : Char) : Bool :=
  c = '\n' || c = '\r' || c.toNat = 0x2028 || c.toNat = 0x2029

/-- What `\b` looks at. -/
def isWordChar (c : Char) : Bool := c.isAlphanum || c = '_'

def ClassItem.has : ClassItem → Char → Bool
  | .single a, c => a = c
  | .space, c => isSpace c
  | .notSpace, c => !isSpace c

inductive Regex
  /-- The empty text. -/
  | eps
  /-- One character of a class. -/
  | set (negated : Bool) (items : List ClassItem)
  /-- `.` -/
  | any
  | seq (a b : Regex)
  | alt (a b : Regex)
  | star (a : Regex)
  /-- `^` -/
  | bol
  /-- `$` -/
  | eol
  /-- `\b` -/
  | wordBoundary
  deriving DecidableEq, Repr

namespace Regex

/-- A character that stands for itself. -/
def char (c : Char) : Regex := .set false [.single c]

/-- Is there a word character at this position? -/
def wordAt (s : List Char) (i : Nat) : Bool := s[i]?.any isWordChar

/-- Is the position between a word character and something else? -/
def atBoundary (s : List Char) (i : Nat) : Bool :=
  (0 < i && wordAt s (i - 1)) != wordAt s i

/-- Does one character match? -/
def hasChar (negated : Bool) (items : List ClassItem) (c : Char) : Bool :=
  items.any (·.has c) != negated

/-- `r` matches `s` from position `i` to position `j`. -/
def Matches (s : List Char) : Regex → Nat → Nat → Prop
  | .eps, i, j => i = j
  | .set negated items, i, j => (∃ c, s[i]? = some c ∧ hasChar negated items c) ∧ j = i + 1
  | .any, i, j => (∃ c, s[i]? = some c ∧ !isLineTerminator c) ∧ j = i + 1
  | .seq a b, i, j => ∃ k, Matches s a i k ∧ Matches s b k j
  | .alt a b, i, j => Matches s a i j ∨ Matches s b i j
  | .star a, i, j => Relation.ReflTransGen (Matches s a) i j
  | .bol, i, j => i = j ∧ i = 0
  | .eol, i, j => i = j ∧ i = s.length
  | .wordBoundary, i, j => i = j ∧ atBoundary s i

variable {s : List Char} {r : Regex} {i j : Nat}

/-- `std::regex_match`: the whole text. -/
def MatchesAll (r : Regex) (s : List Char) : Prop := r.Matches s 0 s.length

/-- `RegExp.prototype.test`: some part of the text. -/
def Test (r : Regex) (s : List Char) : Prop := ∃ i j, i ≤ s.length ∧ r.Matches s i j

/-- A match goes on, and ends within the text. -/
theorem Matches.le (h : r.Matches s i j) : i ≤ j ∧ (i < j → j ≤ s.length) := by
  induction r generalizing i j with
  | eps => exact ⟨h.le, fun hlt => absurd h hlt.ne⟩
  | set | any =>
    obtain ⟨hc, rfl⟩ := h
    obtain ⟨c, hc, -⟩ := hc
    have hlt := (List.getElem?_eq_some_iff.mp hc).choose
    exact ⟨Nat.le_succ i, fun _ => hlt⟩
  | seq a b iha ihb =>
    obtain ⟨k, ha, hb⟩ := h
    have h1 := iha ha
    have h2 := ihb hb
    refine ⟨h1.1.trans h2.1, fun hlt => ?_⟩
    rcases Nat.lt_or_eq_of_le h2.1 with hkj | heq
    · exact h2.2 hkj
    · exact heq ▸ h1.2 (heq ▸ hlt)
  | alt a b iha ihb =>
    rcases h with ha | hb
    · exact iha ha
    · exact ihb hb
  | star a ih =>
    have hrun : Relation.ReflTransGen (a.Matches s) i j := h
    clear h
    induction hrun with
    | refl => exact ⟨Nat.le_refl i, fun hlt => absurd hlt (Nat.lt_irrefl i)⟩
    | @tail k j _ hstep hrec =>
      have h2 := ih hstep
      refine ⟨hrec.1.trans h2.1, fun hlt => ?_⟩
      rcases Nat.lt_or_eq_of_le h2.1 with hkj | heq
      · exact h2.2 hkj
      · exact heq ▸ hrec.2 (heq ▸ hlt)
  | bol | eol | wordBoundary => exact ⟨h.1.le, fun hlt => absurd h.1 hlt.ne⟩

/-! ## A matcher -/

/-- The positions that repetitions reach, each at least one character further than the last. -/
def starEnds (f : Nat → List Nat) : Nat → Nat → List Nat
  | 0, i => [i]
  | n + 1, i => (i :: ((f i).filter (i < ·)).flatMap (starEnds f n)).dedup

/-- The positions at which a match from `i` may end. -/
def ends (s : List Char) : Regex → Nat → List Nat
  | .eps, i => [i]
  | .set negated items, i => if s[i]?.any (hasChar negated items) then [i + 1] else []
  | .any, i => if s[i]?.any (!isLineTerminator ·) then [i + 1] else []
  | .seq a b, i => ((ends s a i).flatMap (ends s b)).dedup
  | .alt a b, i => (ends s a i ++ ends s b i).dedup
  | .star a, i => starEnds (ends s a) (s.length - i) i
  | .bol, i => if i = 0 then [i] else []
  | .eol, i => if i = s.length then [i] else []
  | .wordBoundary, i => if atBoundary s i then [i] else []

theorem mem_starEnds_iff {f : Nat → List Nat} {R : Nat → Nat → Prop}
    (hf : ∀ i j, j ∈ f i ↔ R i j) (hR : ∀ i j, R i j → i ≤ j ∧ (i < j → j ≤ s.length))
    {n : Nat} (hn : s.length ≤ n + i) :
    j ∈ starEnds f n i ↔ Relation.ReflTransGen R i j := by
  constructor
  · intro h
    clear hn
    induction n generalizing i with
    | zero => exact List.mem_singleton.mp h ▸ .refl
    | succ n ih =>
      rw [starEnds, List.mem_dedup, List.mem_cons, List.mem_flatMap] at h
      rcases h with rfl | ⟨k, hk, hj⟩
      · exact .refl
      · exact .head ((hf i k).mp (List.mem_filter.mp hk).1) (ih hj)
  · intro h
    induction h using Relation.ReflTransGen.head_induction_on generalizing n with
    | refl =>
      cases n with
      | zero => exact List.mem_singleton_self j
      | succ n => simp [starEnds]
    | @head i k hstep _ ih =>
      obtain ⟨hle, hbound⟩ := hR i k hstep
      rcases Nat.lt_or_eq_of_le hle with hlt | rfl
      · -- one character at least has been matched
        have hk := hbound hlt
        cases n with
        | zero => omega
        | succ n =>
          rw [starEnds, List.mem_dedup, List.mem_cons, List.mem_flatMap]
          refine .inr ⟨k, List.mem_filter.mpr ⟨(hf i k).mpr hstep, decide_eq_true hlt⟩, ih ?_⟩
          omega
      · exact ih hn

/-- An assertion stays where it is. -/
theorem mem_assertion_iff {p : Prop} [Decidable p] :
    (j ∈ if p then [i] else []) ↔ i = j ∧ p := by
  split
  next hp => exact List.mem_singleton.trans ⟨fun h => ⟨h.symm, hp⟩, fun h => h.1.symm⟩
  next hp => exact ⟨fun h => absurd h List.not_mem_nil, fun h => absurd h.2 hp⟩

/-- **The matcher finds every match.** -/
theorem mem_ends_iff : j ∈ r.ends s i ↔ r.Matches s i j := by
  induction r generalizing i j with
  | eps => exact List.mem_singleton.trans eq_comm
  | set negated items =>
    rw [ends, Matches]
    cases s[i]? with
    | none => simp
    | some c => by_cases hc : hasChar negated items c <;> simp [hc]
  | any =>
    rw [ends, Matches]
    cases s[i]? with
    | none => simp
    | some c => by_cases hc : isLineTerminator c <;> simp [hc]
  | seq a b iha ihb =>
    rw [ends, List.mem_dedup, List.mem_flatMap, Matches]
    simp only [iha, ihb]
  | alt a b iha ihb => rw [ends, List.mem_dedup, List.mem_append, iha, ihb, Matches]
  | star a ih =>
    rw [ends, mem_starEnds_iff (fun _ _ => ih) (fun _ _ h => h.le) (by omega), Matches]
  | bol | eol | wordBoundary => exact mem_assertion_iff

instance : Decidable (r.Matches s i j) := decidable_of_iff _ mem_ends_iff

instance : Decidable (r.MatchesAll s) := inferInstanceAs (Decidable (r.Matches s 0 s.length))

/-- The test, by trying every position. -/
theorem test_iff : r.Test s ↔ ∃ i ∈ List.range (s.length + 1), r.ends s i ≠ [] := by
  constructor
  · intro h
    obtain ⟨i, j, hi, hm⟩ := h
    refine ⟨i, List.mem_range.mpr (Nat.lt_succ_of_le hi), ?_⟩
    exact List.ne_nil_of_mem (mem_ends_iff.mpr hm)
  · intro h
    obtain ⟨i, hi, hne⟩ := h
    obtain ⟨j, hj⟩ := List.exists_mem_of_ne_nil _ hne
    exact ⟨i, j, Nat.le_of_lt_succ (List.mem_range.mp hi), mem_ends_iff.mp hj⟩

instance : Decidable (r.Test s) := decidable_of_iff _ test_iff.symm

/-! ## Reading an expression -/

/-- An open group: its alternatives so far, the terms of the last one (the last term first), and
the atom in front, which a quantifier may still follow. -/
structure Frame where
  alts : List Regex
  terms : List Regex
  atom : Option Regex
  deriving DecidableEq, Repr

namespace Frame

def empty : Frame := ⟨[], [], none⟩

/-- The terms of the last alternative, the atom included. -/
def allTerms (f : Frame) : List Regex := f.atom.toList ++ f.terms

/-- An atom comes next. -/
def push (f : Frame) (a : Regex) : Frame := ⟨f.alts, f.allTerms, some a⟩

/-- An assertion comes next; it takes no quantifier. -/
def assert (f : Frame) (a : Regex) : Frame := ⟨f.alts, a :: f.allTerms, none⟩

/-- The terms one after the other. -/
def sequence (terms : List Regex) : Regex := terms.foldl (fun r t => .seq t r) .eps

/-- The last alternative is complete. -/
def bar (f : Frame) : Frame := ⟨sequence f.allTerms :: f.alts, [], none⟩

/-- The group is complete. -/
def close (f : Frame) : Regex := f.alts.foldl (fun r a => .alt a r) (sequence f.allTerms)

/-- A quantifier. -/
def quantify (f : Frame) (q : Regex → Regex) : Option Frame :=
  f.atom.map fun a => ⟨f.alts, q a :: f.terms, none⟩

end Frame

/-- What the next character is read as. -/
inductive Mode
  | text
  /-- Behind a `\`. -/
  | escape
  /-- Behind a `(`. -/
  | group
  /-- Behind `(?`. -/
  | groupKind
  /-- Behind a quantifier, which a `?` makes lazy. -/
  | quantified
  /-- Behind a `[`. -/
  | classStart
  | class (negated : Bool) (items : List ClassItem)
  | classEscape (negated : Bool) (items : List ClassItem)
  deriving DecidableEq, Repr

structure ParseState where
  outer : List Frame
  frame : Frame
  mode : Mode
  deriving DecidableEq, Repr

namespace ParseState

def initial : ParseState := ⟨[], .empty, .text⟩

def withFrame (p : ParseState) (f : Frame) : ParseState := { p with frame := f, mode := .text }

/-- An atom is complete. -/
def push (p : ParseState) (a : Regex) : ParseState := p.withFrame (p.frame.push a)

/-- A character outside of classes, groups and escapes. -/
def readText (p : ParseState) (c : Char) : Option ParseState :=
  match c with
  | '\\' => some { p with mode := .escape }
  | '(' => some { p with mode := .group }
  | ')' =>
    match p.outer with
    | [] => none
    | f :: outer => some ⟨outer, f.push p.frame.close, .text⟩
  | '|' => some (p.withFrame p.frame.bar)
  | '*' => (p.frame.quantify .star).map fun f => { p with frame := f, mode := .quantified }
  | '+' => (p.frame.quantify fun a => .seq a (.star a)).map fun f =>
      { p with frame := f, mode := .quantified }
  | '?' => (p.frame.quantify fun a => .alt a .eps).map fun f =>
      { p with frame := f, mode := .quantified }
  | '.' => some (p.push .any)
  | '^' => some (p.withFrame (p.frame.assert .bol))
  | '$' => some (p.withFrame (p.frame.assert .eol))
  | '[' => some { p with mode := .classStart }
  | ']' | '{' | '}' => none
  | c => some (p.push (.char c))

/-- The character behind a `\`. Letters and digits that mean something else are not read. -/
def readEscape (p : ParseState) (c : Char) : Option ParseState :=
  if c = 's' then some (p.push (.set false [.space]))
  else if c = 'S' then some (p.push (.set false [.notSpace]))
  else if c = 'n' then some (p.push (.char '\n'))
  else if c = 'b' then some (p.withFrame (p.frame.assert .wordBoundary))
  else if isWordChar c then none
  else some (p.push (.char c))

/-- A character in a class. Ranges are not read. -/
def readClass (p : ParseState) (negated : Bool) (items : List ClassItem) (c : Char) :
    Option ParseState :=
  if c = ']' then some (p.push (.set negated items))
  else if c = '\\' then some { p with mode := .classEscape negated items }
  else if c = '-' then none
  else some { p with mode := .class negated (items ++ [.single c]) }

def readClassEscape (p : ParseState) (negated : Bool) (items : List ClassItem) (c : Char) :
    Option ParseState :=
  if c = 's' then some { p with mode := .class negated (items ++ [.space]) }
  else if c = 'S' then some { p with mode := .class negated (items ++ [.notSpace]) }
  else if c = 'n' then some { p with mode := .class negated (items ++ [.single '\n']) }
  else if isWordChar c then none
  else some { p with mode := .class negated (items ++ [.single c]) }

def read (p : ParseState) (c : Char) : Option ParseState :=
  match p.mode with
  | .text => p.readText c
  | .escape => p.readEscape c
  | .group =>
    if c = '?' then some { p with mode := .groupKind }
    else (ParseState.mk (p.frame :: p.outer) .empty .text).readText c
  | .groupKind => if c = ':' then some ⟨p.frame :: p.outer, .empty, .text⟩ else none
  | .quantified => if c = '?' then some { p with mode := .text } else p.readText c
  | .classStart =>
    if c = '^' then some { p with mode := .class true [] } else p.readClass false [] c
  | .class negated items => p.readClass negated items c
  | .classEscape negated items => p.readClassEscape negated items c

/-- The end of the text. -/
def finish (p : ParseState) : Option Regex :=
  if p.outer = [] ∧ (p.mode = .text ∨ p.mode = .quantified) then some p.frame.close else none

end ParseState

/-- Read a piece of the text. -/
def parseFrom (p : ParseState) : List Char → Option ParseState
  | [] => some p
  | c :: text => (p.read c).bind fun q => parseFrom q text

/-- Read an expression. -/
def parse (text : List Char) : Option Regex := (parseFrom .initial text).bind ParseState.finish

/-- Pieces are read one after the other. -/
theorem parseFrom_append (p : ParseState) (xs ys : List Char) :
    parseFrom p (xs ++ ys) = (parseFrom p xs).bind fun q => parseFrom q ys := by
  induction xs generalizing p with
  | nil => rfl
  | cons c xs ih =>
    rw [List.cons_append, parseFrom, parseFrom]
    cases p.read c with
    | none => rfl
    | some q => exact ih q

/-! ## Characters that stand for themselves -/

/-- Outside of classes and escapes, and not behind a bracket that opens a group. -/
def ParseState.InText (p : ParseState) : Prop := p.mode = .text ∨ p.mode = .quantified

variable {p : ParseState} {c : Char}

/-- A quantifier makes a difference to a `?` only. -/
theorem read_inText (hp : p.InText) (hc : c ≠ '?') : p.read c = p.readText c := by
  rcases hp with hmode | hmode
  · rw [ParseState.read, hmode]
  · rw [ParseState.read, hmode]
    exact if_neg hc

/-- The characters that mean something in an expression. -/
def syntaxChars : List Char :=
  ['\\', '(', ')', '|', '*', '+', '?', '.', '^', '$', '[', ']', '{', '}']

theorem readText_self (hc : c ∉ syntaxChars) : p.readText c = some (p.push (.char c)) := by
  unfold ParseState.readText
  split <;> first | rfl | exact absurd (by decide) hc

/-- A character that means nothing. -/
theorem parseFrom_self (hp : p.InText) (hc : c ∉ syntaxChars) :
    parseFrom p [c] = some (p.push (.char c)) := by
  have hne : c ≠ '?' := fun h => hc (h ▸ by decide)
  rw [parseFrom, read_inText hp hne, readText_self hc]
  rfl

/-- A character behind a `\`. -/
theorem parseFrom_escaped (hp : p.InText) (hc : isWordChar c = false) :
    parseFrom p ['\\', c] = some (p.push (.char c)) := by
  have hesc : ∀ q : ParseState, q.readEscape c = some (q.push (.char c)) := by
    intro q
    have hs : c ≠ 's' := fun h => by rw [h] at hc; exact absurd hc (by decide)
    have hS : c ≠ 'S' := fun h => by rw [h] at hc; exact absurd hc (by decide)
    have hn : c ≠ 'n' := fun h => by rw [h] at hc; exact absurd hc (by decide)
    have hb : c ≠ 'b' := fun h => by rw [h] at hc; exact absurd hc (by decide)
    rw [ParseState.readEscape, if_neg hs, if_neg hS, if_neg hn, if_neg hb, hc]
    rfl
  have hread : p.read '\\' = some { p with mode := .escape } := by
    rw [read_inText hp (by decide)]
    rfl
  have hnext : ({ p with mode := .escape } : ParseState).read c =
      some (({ p with mode := .escape } : ParseState).push (.char c)) := hesc _
  rw [parseFrom, hread, Option.bind_some, parseFrom, hnext]
  rfl

/-! ## Terms in a row -/

/-- The terms of an alternative in the order in which they stand. -/
def chain (terms : List Regex) : Regex := terms.foldr .seq .eps

theorem sequence_reverse (terms : List Regex) : Frame.sequence terms.reverse = chain terms := by
  rw [Frame.sequence, List.foldl_reverse]
  rfl

theorem matches_chain_cons {t : Regex} {ts : List Regex} :
    (chain (t :: ts)).Matches s i j ↔ ∃ k, t.Matches s i k ∧ (chain ts).Matches s k j := Iff.rfl

theorem matches_char {c : Char} : (char c).Matches s i j ↔ s[i]? = some c ∧ j = i + 1 := by
  rw [char, Matches]
  simp [hasChar, ClassItem.has, eq_comm]

/-- A run of `.`. -/
theorem matches_star_any : (star any).Matches s i j ↔
    i ≤ j ∧ ∀ k, i ≤ k → k < j → ∃ c, s[k]? = some c ∧ !isLineTerminator c := by
  show Relation.ReflTransGen (any.Matches s) i j ↔ _
  constructor
  · intro h
    induction h with
    | refl => exact ⟨Nat.le_refl i, fun k h1 h2 => absurd h1 (Nat.not_le_of_lt h2)⟩
    | @tail k j _ hstep ih =>
      obtain ⟨hc, rfl⟩ := hstep
      refine ⟨ih.1.trans (Nat.le_succ k), fun l h1 h2 => ?_⟩
      rcases Nat.lt_or_eq_of_le (Nat.le_of_lt_succ h2) with hlt | rfl
      · exact ih.2 l h1 hlt
      · exact hc
  · intro h
    obtain ⟨hle, hall⟩ := h
    induction j, hle using Nat.le_induction with
    | base => exact .refl
    | succ j hle ih =>
      refine .tail (ih fun k h1 h2 => hall k h1 (h2.trans (Nat.lt_succ_self j))) ?_
      exact ⟨hall j hle (Nat.lt_succ_self j), rfl⟩

/-! ## Case -/

/-- The letters that the `i` flag takes for the same as an ASCII letter. -/
def bothCases : ClassItem → List ClassItem
  | .single c => [.single c.toLower, .single c.toUpper]
  | item => [item]

/-- The expression with the `i` flag. -/
def ignoreCase : Regex → Regex
  | .set negated items => .set negated (items.flatMap bothCases)
  | .seq a b => .seq a.ignoreCase b.ignoreCase
  | .alt a b => .alt a.ignoreCase b.ignoreCase
  | .star a => .star a.ignoreCase
  | r => r

end Regex

end Haybarn.Lib
