import Haybarn.Lib.Regex

/-!
# File name patterns

`glob_to_regex` turns a pattern into the text of a regular expression, which `std::regex` reads;
the filesystem then lists the files whose whole name matches it. Characters that mean something in
an expression are escaped, and `*` becomes an expression of its own.

Mirroring notes:

* a `char` is a `Char`: the code looks at one at a time, and has no name for one above ASCII;
* the stream `exp` is the list of the characters written to it. The loop is a recursion over the
  rest of the pattern; `prev` is the character in front of it, and `skip` how many characters the
  inner loop and `i++` have moved over;
* `std::regex` reads ECMAScript's expressions; `none` is a `std::regex_error`.

`glob_default` says what is matched under the default options; `star_crosses_segments` is where
that differs from a reading of `*` that stays within a path segment.
-/

namespace Haybarn.Io.Glob

open Haybarn.Lib

structure GlobToRegexOptions where
  extended : Bool := false
  glob_star : Bool := false
  case_insensitive : Bool := false
  global : Bool := false
  deriving DecidableEq, Repr

/-- What the `switch` writes for a character other than `*`, and `in_group` after it. -/
def emit (options : GlobToRegexOptions) (in_group : Bool) (c : Char) : List Char × Bool :=
  match c with
  | '/' | '$' | '^' | '+' | '.' | '(' | ')' | '=' | '!' | '|' => (['\\', c], in_group)
  | '?' => if options.extended then (['.'], in_group) else (['\\', c], in_group)
  | '[' | ']' => if options.extended then ([c], in_group) else (['\\', c], in_group)
  | '{' => if options.extended then (['('], true) else (['\\', c], in_group)
  | '}' => if options.extended then ([')'], false) else (['\\', c], in_group)
  | ',' => if in_group then (['|'], in_group) else (['\\', c], in_group)
  | c => ([c], in_group)

/-- How many `*` there are at the front. -/
def starCount (pattern : List Char) : Nat := (pattern.takeWhile (· = '*')).length

/-- The loop over the pattern. -/
def scan (options : GlobToRegexOptions) (skip : Nat) (prev : Char) (in_group : Bool) :
    List Char → List Char
  | [] => []
  | c :: rest =>
    match skip with
    | skip + 1 => scan options skip c in_group rest
    | 0 =>
      if c = '*' then
        let next_char_or_sep := (rest.drop (starCount rest)).headD '/'
        -- treat any number of `*` as one
        if options.glob_star = false then
          ".*".toList ++ scan options (starCount rest) c in_group rest
        else if 0 < starCount rest ∧ prev = '/' ∧ next_char_or_sep = '/' then
          "((?:[^/]*(?:\\/|$))*)".toList ++ scan options (starCount rest + 1) c in_group rest
        else
          "([^/]*)".toList ++ scan options (starCount rest) c in_group rest
      else
        (emit options in_group c).1 ++ scan options 0 c (emit options in_group c).2 rest

/-- The text of the expression. -/
def expression (pattern : List Char) (options : GlobToRegexOptions) : List Char :=
  (if options.global then ".*".toList else ['^']) ++ scan options 0 '/' false pattern ++
    (if options.global then ".*".toList else ['$'])

def glob_to_regex (pattern : List Char) (options : GlobToRegexOptions) : Option Regex :=
  (Regex.parse (expression pattern options)).map fun r =>
    if options.case_insensitive then r.ignoreCase else r

/-! ## What a pattern stands for -/

/-- `*` stands for any run of characters without a line terminator, and every other character for
itself. -/
def Wildcard : List Char → List Char → Prop
  | [], name => name = []
  | c :: pattern, name =>
    if c = '*' then
      ∃ k ≤ name.length, (name.take k).all (!isLineTerminator ·) ∧ Wildcard pattern (name.drop k)
    else ∃ rest, name = c :: rest ∧ Wildcard pattern rest

/-- A pattern without `/` against one segment of a path: `*` stands for any run of characters, `?`
for one character if the options say so, and every other character for itself. -/
inductive SegmentMatches (options : GlobToRegexOptions) : List Char → List Char → Prop
  | nil : SegmentMatches options [] []
  | star {p n : List Char} (run : List Char) :
      SegmentMatches options p n → SegmentMatches options ('*' :: p) (run ++ n)
  | one {p n : List Char} (c : Char) : options.extended →
      SegmentMatches options p n → SegmentMatches options ('?' :: p) (c :: n)
  | self {p n : List Char} {c : Char} : c ≠ '*' → ¬ (c = '?' ∧ options.extended) →
      SegmentMatches options p n → SegmentMatches options (c :: p) (c :: n)

/-- The segments of a pattern against the segments of a path: `**` stands for any number of
segments, and every other segment for one. -/
inductive PathMatches (options : GlobToRegexOptions) : List (List Char) → List (List Char) → Prop
  | nil : PathMatches options [] []
  | segment {p n : List Char} {ps ns : List (List Char)} : p ≠ ['*', '*'] →
      SegmentMatches options p n → PathMatches options ps ns →
      PathMatches options (p :: ps) (n :: ns)
  | none {ps ns : List (List Char)} : PathMatches options ps ns →
      PathMatches options (['*', '*'] :: ps) ns
  | more {n : List Char} {ps ns : List (List Char)} :
      PathMatches options (['*', '*'] :: ps) ns → PathMatches options (['*', '*'] :: ps) (n :: ns)

/-- The pattern against the name, both read as paths. -/
def GlobMatches (options : GlobToRegexOptions) (pattern name : List Char) : Prop :=
  PathMatches options (pattern.splitOn '/') (name.splitOn '/')

/-- The default options. -/
abbrev defaults : GlobToRegexOptions := {}

variable {pattern name rest : List Char} {c prev : Char}

/-! ## What is read from the expression -/

/-- The terms that the pattern is turned into. -/
def pieces (skip : Nat) : List Char → List Regex
  | [] => []
  | c :: rest =>
    match skip with
    | skip + 1 => pieces skip rest
    | 0 => if c = '*' then .star .any :: pieces (starCount rest) rest else .char c :: pieces 0 rest

/-- Outside of every group, and not in the middle of an escape or a class. -/
structure AtTop (p : Regex.ParseState) : Prop where
  outer : p.outer = []
  alts : p.frame.alts = []
  text : p.InText

/-- **A character other than `*` is read as itself.** -/
theorem parseFrom_emit (hc : c ≠ '*') (hb : c ≠ '\\') {p : Regex.ParseState} (hp : AtTop p) :
    Regex.parseFrom p (emit defaults false c).1 = some (p.push (.char c)) ∧
      (emit defaults false c).2 = false := by
  unfold emit
  split
  case h_17 h1 h2 h3 h4 h5 h6 h7 h8 h9 h10 h11 h12 h13 h14 h15 h16 =>
    -- nothing to escape
    have hself : c ∉ Regex.syntaxChars := by
      intro hmem
      simp only [Regex.syntaxChars, List.mem_cons, List.not_mem_nil, or_false] at hmem
      rcases hmem with h | h | h | h | h | h | h | h | h | h | h | h | h | h
      exacts [hb h, h6 h, h7 h, h10 h, hc h, h4 h, h11 h, h5 h, h3 h, h2 h, h12 h, h13 h, h14 h,
        h15 h]
    exact ⟨Regex.parseFrom_self hp.text hself, rfl⟩
  all_goals exact ⟨Regex.parseFrom_escaped hp.text (by decide), rfl⟩

/-- A `*` is read as a run of `.`. -/
theorem parseFrom_star {p : Regex.ParseState} (hp : AtTop p) :
    ∃ q, Regex.parseFrom p ".*".toList = some q ∧ AtTop q ∧
      q.frame.allTerms = .star .any :: p.frame.allTerms := by
  refine ⟨⟨p.outer, ⟨p.frame.alts, .star .any :: p.frame.allTerms, none⟩, .quantified⟩, ?_,
    ⟨hp.outer, hp.alts, .inr rfl⟩, rfl⟩
  have hdot : p.read '.' = some (p.push .any) := Regex.read_inText hp.text (by decide)
  show (p.read '.').bind _ = _
  rw [hdot]
  rfl

/-- **What the loop writes is read as the pieces of the pattern**, in front of which is what has
been read before. -/
theorem parseFrom_scan (hb : '\\' ∉ pattern) (skip : Nat) (prev : Char) {p : Regex.ParseState}
    (hp : AtTop p) : ∃ q, Regex.parseFrom p (scan defaults skip prev false pattern) = some q ∧
      AtTop q ∧ q.frame.allTerms = (pieces skip pattern).reverse ++ p.frame.allTerms := by
  induction pattern generalizing skip prev p with
  | nil => exact ⟨p, by cases skip <;> rfl, hp, by cases skip <;> rfl⟩
  | cons c rest ih =>
    obtain ⟨hne, hrest⟩ : '\\' ≠ c ∧ '\\' ∉ rest := not_or.mp fun h => hb (List.mem_cons.mpr h)
    cases skip with
    | succ skip => exact ih hrest skip c hp
    | zero =>
      by_cases hc : c = '*'
      · obtain ⟨q, hq, htop, hterms⟩ := parseFrom_star hp
        obtain ⟨q', hq', htop', hterms'⟩ := ih hrest (starCount rest) c htop
        refine ⟨q', ?_, htop', ?_⟩
        · rw [scan, if_pos hc, if_pos rfl, Regex.parseFrom_append, hq]
          exact hq'
        · rw [hterms', hterms, pieces, if_pos hc, List.reverse_cons, List.append_assoc]
          rfl
      · obtain ⟨hself, hgroup⟩ := parseFrom_emit hc (Ne.symm hne) hp
        have htop : AtTop (p.push (.char c)) := ⟨hp.outer, hp.alts, .inl rfl⟩
        obtain ⟨q, hq, htop', hterms⟩ := ih hrest 0 c htop
        refine ⟨q, ?_, htop', ?_⟩
        · rw [scan, if_neg hc, Regex.parseFrom_append, hself, hgroup]
          exact hq
        · rw [hterms, pieces, if_neg hc, List.reverse_cons, List.append_assoc]
          rfl

/-- The expression, as it is read. -/
theorem glob_to_regex_eq (hb : '\\' ∉ pattern) :
    glob_to_regex pattern defaults = some (Regex.chain (.bol :: pieces 0 pattern ++ [.eol])) := by
  have htop : AtTop ⟨[], ⟨[], [.bol], none⟩, .text⟩ := ⟨rfl, rfl, .inl rfl⟩
  obtain ⟨q, hq, hqtop, hterms⟩ := parseFrom_scan hb 0 '/' htop
  have hread : Regex.parseFrom .initial (expression pattern defaults) =
      some ⟨q.outer, q.frame.assert .eol, .text⟩ := by
    show (Regex.parseFrom ⟨[], ⟨[], [.bol], none⟩, .text⟩
      (scan defaults 0 '/' false pattern ++ ['$'])) = _
    rw [Regex.parseFrom_append, hq]
    show (q.read '$').bind _ = _
    rw [Regex.read_inText hqtop.text (by decide)]
    rfl
  have hclose : (q.frame.assert .eol).close =
      Regex.chain (.bol :: pieces 0 pattern ++ [.eol]) := by
    have hlist : Regex.eol :: q.frame.allTerms =
        (Regex.bol :: pieces 0 pattern ++ [Regex.eol]).reverse := by
      rw [hterms]
      simp [Regex.Frame.allTerms]
    rw [← Regex.sequence_reverse, ← hlist, Regex.Frame.close, Regex.Frame.assert, hqtop.alts]
    rfl
  have hfinish : Regex.ParseState.finish ⟨q.outer, q.frame.assert .eol, .text⟩ =
      some (q.frame.assert .eol).close := if_pos ⟨hqtop.outer, .inl rfl⟩
  rw [glob_to_regex, Regex.parse, hread, Option.bind_some, hfinish, hclose]
  rfl

/-! ## What the pieces match -/

theorem wildcard_star {p n : List Char} : Wildcard ('*' :: p) n ↔
    ∃ k ≤ n.length, (n.take k).all (!isLineTerminator ·) ∧ Wildcard p (n.drop k) := by
  rw [Wildcard, if_pos rfl]

/-- Two `*` stand for what one stands for. -/
theorem wildcard_star_star {p n : List Char} :
    Wildcard ('*' :: '*' :: p) n ↔ Wildcard ('*' :: p) n := by
  rw [wildcard_star]
  constructor
  · intro h
    obtain ⟨k, hk, hrun, h⟩ := h
    obtain ⟨l, hl, hrun', h⟩ := wildcard_star.mp h
    rw [List.length_drop] at hl
    refine wildcard_star.mpr ⟨k + l, by omega, ?_, ?_⟩
    · rw [List.take_add, List.all_append, hrun, hrun']
      rfl
    · rwa [List.drop_drop] at h
  · intro h
    exact ⟨0, Nat.zero_le _, rfl, h⟩

/-- All the `*` in a row stand for what one stands for. -/
theorem wildcard_stars {n : List Char} : ∀ p : List Char,
    Wildcard ('*' :: p.drop (starCount p)) n ↔ Wildcard ('*' :: p) n
  | [] => Iff.rfl
  | c :: p => by
    by_cases hc : c = '*'
    · have hcount : starCount (c :: p) = starCount p + 1 := by simp [starCount, hc]
      rw [hcount, List.drop_succ_cons, wildcard_stars p, hc, wildcard_star_star]
    · have hcount : starCount (c :: p) = 0 := by simp [starCount, hc]
      rw [hcount, List.drop_zero]

/-- The pieces from `skip` on are those of the rest of the pattern. -/
theorem pieces_skip (skip : Nat) : ∀ p : List Char, pieces skip p = pieces 0 (p.drop skip)
  | [] => by cases skip <;> simp [pieces]
  | c :: p => by
    cases skip with
    | zero => rfl
    | succ skip => exact pieces_skip skip p

/-- A run between two positions. -/
theorem all_run_iff {i j : Nat} (p : Char → Bool) (hj : j ≤ name.length) :
    ((name.drop i).take (j - i)).all p = true ↔
      ∀ k, i ≤ k → k < j → ∃ c, name[k]? = some c ∧ p c := by
  rw [List.all_eq_true]
  constructor
  · intro h k hik hkj
    have hlt : k < name.length := by omega
    refine ⟨name[k], List.getElem?_eq_getElem hlt, h _ (List.mem_iff_getElem?.mpr ⟨k - i, ?_⟩)⟩
    rw [List.getElem?_take_of_lt (by omega), List.getElem?_drop, Nat.add_sub_cancel' hik,
      List.getElem?_eq_getElem hlt]
  · intro h c hc
    obtain ⟨k, hk⟩ := List.mem_iff_getElem?.mp hc
    rw [List.getElem?_take] at hk
    split at hk
    next hlt =>
      rw [List.getElem?_drop] at hk
      obtain ⟨c', hc', hp⟩ := h (i + k) (by omega) (by omega)
      rw [hk] at hc'
      exact Option.some.inj hc' ▸ hp
    next => cases hk

/-- **The pieces match what the pattern stands for.** -/
theorem matches_pieces {i : Nat} (hi : i ≤ name.length) :
    (Regex.chain (pieces 0 pattern ++ [.eol])).Matches name i name.length ↔
      Wildcard pattern (name.drop i) := by
  induction hlen : pattern.length using Nat.strongRecOn generalizing pattern i with
  | _ n ih =>
    cases pattern with
    | nil =>
      have heol : (Regex.chain (pieces 0 [] ++ [.eol])).Matches name i name.length ↔
          ∃ k, (i = k ∧ i = name.length) ∧ k = name.length := Iff.rfl
      rw [heol, Wildcard, List.drop_eq_nil_iff]
      constructor
      · intro h
        obtain ⟨k, ⟨-, h⟩, -⟩ := h
        exact h.ge
      · exact fun h => ⟨i, ⟨rfl, Nat.le_antisymm hi h⟩, Nat.le_antisymm hi h⟩
    | cons c rest =>
      by_cases hc : c = '*'
      · subst hc
        have hrest : ∀ j, j ≤ name.length →
            ((Regex.chain (pieces (starCount rest) rest ++ [.eol])).Matches name j name.length ↔
              Wildcard (rest.drop (starCount rest)) (name.drop j)) := by
          intro j hj
          rw [pieces_skip]
          refine ih _ ?_ hj rfl
          rw [List.length_drop, ← hlen, List.length_cons]
          omega
        rw [pieces, if_pos rfl, List.cons_append, Regex.matches_chain_cons, ← wildcard_stars,
          wildcard_star]
        constructor
        · intro h
          obtain ⟨k, hany, h⟩ := h
          have hk : k ≤ name.length := h.le.1
          obtain ⟨hik, hrun⟩ := Regex.matches_star_any.mp hany
          refine ⟨k - i, ?_, (all_run_iff _ hk).mpr hrun, ?_⟩
          · rw [List.length_drop]
            omega
          · rw [List.drop_drop, Nat.add_sub_cancel' hik]
            exact (hrest k hk).mp h
        · intro h
          obtain ⟨k, hk, hrun, h⟩ := h
          rw [List.length_drop] at hk
          have hle : i + k ≤ name.length := by omega
          refine ⟨i + k, Regex.matches_star_any.mpr ⟨Nat.le_add_right i k, ?_⟩, ?_⟩
          · refine (all_run_iff _ hle).mp ?_
            rwa [Nat.add_sub_cancel_left]
          · rw [List.drop_drop] at h
            exact (hrest _ hle).mpr h
      · rw [pieces, if_neg hc, List.cons_append, Regex.matches_chain_cons, Wildcard, if_neg hc]
        constructor
        · intro h
          obtain ⟨k, hchar, h⟩ := h
          obtain ⟨hget, rfl⟩ := Regex.matches_char.mp hchar
          have hlt := (List.getElem?_eq_some_iff.mp hget).choose
          have hdrop : name.drop i = c :: name.drop (i + 1) := by
            rw [List.drop_eq_getElem_cons hlt]
            rw [List.getElem?_eq_getElem hlt] at hget
            rw [Option.some.inj hget]
          refine ⟨_, hdrop, (ih rest.length ?_ hlt rfl).mp h⟩
          rw [← hlen]
          exact Nat.lt_succ_self _
        · intro h
          obtain ⟨rest', hname, h⟩ := h
          have hlt : i < name.length := by
            by_contra hge
            rw [List.drop_eq_nil_of_le (Nat.not_lt.mp hge)] at hname
            cases hname
          rw [List.drop_eq_getElem_cons hlt] at hname
          obtain ⟨hget, hrest⟩ := List.cons_eq_cons.mp hname
          refine ⟨i + 1, Regex.matches_char.mpr ⟨?_, rfl⟩, (ih rest.length ?_ hlt rfl).mpr ?_⟩
          · rw [List.getElem?_eq_getElem hlt, hget]
          · rw [← hlen]
            exact Nat.lt_succ_self _
          · rwa [hrest]

/-- **The default options.** For every pattern without a backslash and every name, `std::regex`
reads the expression, and the whole name matches it exactly if the pattern stands for the name: each
run of `*` for any characters but line terminators, every other character for itself. -/
theorem glob_default (hb : '\\' ∉ pattern) : ∃ r, glob_to_regex pattern defaults = some r ∧
    ∀ name, r.MatchesAll name ↔ Wildcard pattern name := by
  refine ⟨_, glob_to_regex_eq hb, fun name => ?_⟩
  have hbol : (Regex.chain (.bol :: pieces 0 pattern ++ [.eol])).MatchesAll name ↔
      (Regex.chain (pieces 0 pattern ++ [.eol])).Matches name 0 name.length := by
    rw [Regex.MatchesAll, List.cons_append, Regex.matches_chain_cons]
    constructor
    · intro h
      obtain ⟨k, ⟨rfl, -⟩, h⟩ := h
      exact h
    · exact fun h => ⟨0, ⟨rfl, rfl⟩, h⟩
  rw [hbol, matches_pieces (Nat.zero_le _), List.drop_zero]

/-- All names that end in `.js`. -/
theorem glob_default_suffix : '\\' ∉ "*.js".toList ∧
    ∃ r, glob_to_regex "*.js".toList defaults = some r ∧
      ∀ name, r.MatchesAll name ↔ Wildcard "*.js".toList name :=
  have hb : '\\' ∉ "*.js".toList := by decide +kernel
  ⟨hb, glob_default hb⟩

/-- A segment is not two segments. -/
theorem not_pathMatches_two (options : GlobToRegexOptions) (a b : List Char) :
    ¬ PathMatches options [['*']] [a, b] := by
  intro h
  cases h with
  | segment _ _ htail => cases htail

/-- `*` matches a name with two segments. -/
theorem star_crosses_segments : ∃ r, glob_to_regex ['*'] defaults = some r ∧
    r.MatchesAll "a/b".toList ∧ ¬ GlobMatches defaults ['*'] "a/b".toList := by
  refine ⟨_, glob_to_regex_eq (by decide), by decide +kernel, ?_⟩
  have hsplit : ("a/b".toList.splitOn '/') = [['a'], ['b']] := by decide +kernel
  rw [GlobMatches, hsplit]
  exact not_pathMatches_two defaults ['a'] ['b']

end Haybarn.Io.Glob
