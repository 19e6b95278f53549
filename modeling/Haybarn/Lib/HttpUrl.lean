import Haybarn.Lib.Percent

/-!
# The URL of a request

How a browser reads the text of an `http:` or `https:` URL: blanks around it go, and tabs and line
ends within it; the scheme is what stands before the first colon; slashes of either kind go up to
the authority, which ends at the next slash or where a query or a fragment begins; and the path is
split at its slashes, encoded, and walked, a segment `..` taking the one before it away.

Mirroring notes:
- Other schemes make no request over HTTP, and have no `Parts`.
- How an authority is turned into the host that is sent (names in other scripts, addresses, default
  ports, credentials) is left to a `HostParser`.
- The query and the fragment are not kept.
- A text is the list of its characters.
-/

namespace Haybarn.Lib.HttpUrl

open Haybarn.Lib

abbrev Text := List Char

/-! ## The text -/

/-- A space or a control character. -/
def isBlank (c : Char) : Bool := c.toNat ≤ 32

/-- A tab or a line end. -/
def isNewline (c : Char) : Bool := c == '\t' || c == '\n' || c == '\r'

def isSlash (c : Char) : Bool := c == '/' || c == '\\'

/-- The path ends here. -/
def isQuery (c : Char) : Bool := c == '?' || c == '#'

/-- The authority ends here. -/
def isEnd (c : Char) : Bool := isSlash c || isQuery c

def dropNewlines (cs : Text) : Text := cs.filter (!isNewline ·)

def tidy (cs : Text) : Text := dropNewlines ((cs.dropWhile isBlank).rdropWhile isBlank)

inductive Scheme
  | http
  | https
  deriving DecidableEq, Repr

def schemeOf (cs : Text) : Option Scheme :=
  let cs := cs.map Char.toLower
  if cs = "http".toList then some .http
  else if cs = "https".toList then some .https
  else none

structure Parts where
  scheme : Scheme
  authority : Text
  path : Text
  deriving DecidableEq, Repr

/-- What stands before the first colon, and what behind. -/
def splitColon : Text → Option (Text × Text)
  | [] => none
  | c :: cs => if c = ':' then some ([], cs) else (splitColon cs).map fun p => (c :: p.1, p.2)

/-- What stands behind the scheme. -/
def partsBehind (scheme : Scheme) (cs : Text) : Parts :=
  let cs := cs.dropWhile isSlash
  { scheme
    authority := cs.takeWhile (!isEnd ·)
    path := (cs.dropWhile (!isEnd ·)).takeWhile (!isQuery ·) }

def parts (cs : Text) : Option Parts := do
  let (before, behind) ← splitColon (tidy cs)
  let scheme ← schemeOf before
  return partsBehind scheme behind

/-! ## The path -/

def segments : Text → List Text
  | [] => [[]]
  | _ :: cs => cs.splitOnP isSlash

/-- The characters that do not stand in a path as they are. -/
def inPathSet (c : Char) : Bool :=
  c.toNat < 32 || 126 < c.toNat
    || [' ', '"', '#', '<', '>', '?', '^', '\x60', '\x7b', '\x7d'].contains c

def encodeChar (c : Char) : Text :=
  if inPathSet c then (String.utf8EncodeChar c).flatMap percentEncodeByte else [c]

def encode (cs : Text) : Text := cs.flatMap encodeChar

def isSingleDot (s : Text) : Bool := [".", "%2e", "%2E"].any (·.toList == s)

def isDoubleDot (s : Text) : Bool :=
  ["..", ".%2e", ".%2E", "%2e.", "%2E.", "%2e%2e", "%2e%2E", "%2E%2e", "%2E%2E"].any
    (·.toList == s)

def isDot (s : Text) : Bool := isSingleDot s || isDoubleDot s

def stepPath (path : List Text) (s : Text) : List Text :=
  if isDoubleDot s then path.dropLast else if isSingleDot s then path else path ++ [s]

/-- A dot segment at the end leaves an empty one. -/
def walk (path : List Text) : List Text → List Text
  | [] => path
  | [s] => stepPath path s ++ if isDot s then [[]] else []
  | s :: t :: ss => walk (stepPath path s) (t :: ss)

def join (path : List Text) : Text := path.flatMap ('/' :: ·)

def pathname (path : Text) : Text := join (walk [] ((segments path).map encode))

/-! ## The URL -/

/-- What turns an authority into the host and port that are sent. -/
structure HostParser where
  parse : Scheme → Text → Option Text
  /-- There is no URL without a host. -/
  nonempty : ∀ s, parse s [] = none
  /-- Nothing that ends an authority stands in a host, and no blank. -/
  plain : ∀ {s a h}, parse s a = some h → ∀ c ∈ h, isBlank c = false ∧ isEnd c = false

structure Url where
  host : Text
  pathname : Text
  deriving DecidableEq, Repr

/-- `new URL(text)`, and the URL that a request is sent to. -/
def newUrl (hosts : HostParser) (cs : Text) : Option Url := do
  let p ← parts cs
  let host ← hosts.parse p.scheme p.authority
  return { host, pathname := pathname p.path }

/-! ## A text with a slash behind -/

theorem rdropWhile_append {α : Type} {p : α → Bool} {x : α} (hx : p x = false) (l r : List α) :
    (l ++ x :: r).rdropWhile p = l ++ x :: r.rdropWhile p := by
  induction r using List.reverseRecOn with
  | nil => rw [List.rdropWhile_concat_neg _ _ _ (by simp [hx]), List.rdropWhile_nil]
  | append_singleton r y ih =>
    rw [← List.cons_append, ← List.append_assoc, List.rdropWhile_concat, ih,
      List.rdropWhile_concat]
    split
    next => rfl
    next => rw [List.append_assoc, List.cons_append]

/-- What goes from the end of a text are blanks only. -/
theorem dropNewlines_rdropWhile {cs : Text}
    (h : (dropNewlines cs).rdropWhile isBlank = dropNewlines cs) :
    dropNewlines (cs.rdropWhile isBlank) = dropNewlines cs := by
  have hsplit : cs.rdropWhile isBlank ++ cs.rtakeWhile isBlank = cs :=
    List.rdropWhile_append_rtakeWhile
  have hdrop : dropNewlines cs =
      dropNewlines (cs.rdropWhile isBlank) ++ dropNewlines (cs.rtakeWhile isBlank) := by
    unfold dropNewlines
    rw [← List.filter_append, hsplit]
  have hnil : dropNewlines (cs.rtakeWhile isBlank) = [] := by
    by_contra hne
    have hlast := List.rdropWhile_eq_self_iff.mp h (by rw [hdrop]; simp [hne])
    rw [List.getLast_congr _ (by simp [hne]) hdrop, List.getLast_append_of_ne_nil _ hne] at hlast
    have hmem := List.getLast_mem hne
    unfold dropNewlines at hmem
    exact hlast (List.mem_rtakeWhile_imp (List.mem_filter.mp hmem).1)
  rw [hdrop, hnil, List.append_nil]

/-- A text that begins with no blank, and ends with none when its tabs and line ends are gone. -/
structure Unpadded (cs : Text) : Prop where
  head : ∃ c rest, cs = c :: rest ∧ isBlank c = false
  last : (dropNewlines cs).rdropWhile isBlank = dropNewlines cs

def tidyEnd (cs : Text) : Text := dropNewlines (cs.rdropWhile isBlank)

theorem Unpadded.tidy_eq {cs : Text} (h : Unpadded cs) : tidy cs = dropNewlines cs := by
  obtain ⟨c, rest, rfl, hc⟩ := h.head
  unfold tidy
  rw [List.dropWhile_cons_of_neg (by simp [hc]), dropNewlines_rdropWhile h.last]

theorem tidy_append {c : Char} (hc : isBlank c = false) (cs rest : Text) :
    tidy (c :: cs ++ '/' :: rest) = dropNewlines (c :: cs) ++ '/' :: tidyEnd rest := by
  unfold tidy tidyEnd
  rw [List.cons_append, List.dropWhile_cons_of_neg (by simp [hc]), ← List.cons_append,
    rdropWhile_append rfl]
  unfold dropNewlines
  rw [List.filter_append, @List.filter_cons_of_pos _ _ '/' _ rfl]

theorem splitColon_append {cs before behind : Text} (h : splitColon cs = some (before, behind))
    (rest : Text) : splitColon (cs ++ rest) = some (before, behind ++ rest) := by
  induction cs generalizing before with
  | nil => cases h
  | cons c cs ih =>
    rw [splitColon] at h
    rw [List.cons_append, splitColon]
    split at h
    next hc =>
      simp only [Option.some.injEq, Prod.mk.injEq] at h
      rw [if_pos hc, ← h.1, ← h.2]
    next hc =>
      obtain ⟨⟨before', behind'⟩, hcs, heq⟩ := Option.map_eq_some_iff.mp h
      simp only [Prod.mk.injEq] at heq
      obtain ⟨rfl, rfl⟩ := heq
      rw [if_neg hc, ih hcs]
      rfl

theorem eq_of_splitColon {cs before behind : Text} (h : splitColon cs = some (before, behind)) :
    cs = before ++ ':' :: behind := by
  induction cs generalizing before with
  | nil => cases h
  | cons c cs ih =>
    rw [splitColon] at h
    split at h
    next hc =>
      simp only [Option.some.injEq, Prod.mk.injEq] at h
      rw [← h.1, ← h.2, hc]
      rfl
    next hc =>
      obtain ⟨⟨before', behind'⟩, hcs, heq⟩ := Option.map_eq_some_iff.mp h
      simp only [Prod.mk.injEq] at heq
      obtain ⟨rfl, rfl⟩ := heq
      rw [ih hcs]
      rfl

/-- What stands behind the authority, up to the end of the text. -/
def behindAuthority (cs : Text) : Text := (cs.dropWhile isSlash).dropWhile (!isEnd ·)

theorem takeWhile_append_stop {α : Type} {p : α → Bool} {x : α} (hx : p x = false)
    (l r : List α) : (l ++ x :: r).takeWhile p = l.takeWhile p := by
  induction l with
  | nil => simp [hx]
  | cons y l ih =>
    rw [List.cons_append, List.takeWhile_cons, List.takeWhile_cons, ih]

theorem dropWhile_append_stop {α : Type} {p : α → Bool} {x : α} (hx : p x = false)
    (l r : List α) : (l ++ x :: r).dropWhile p = l.dropWhile p ++ x :: r := by
  induction l with
  | nil => simp [hx]
  | cons y l ih =>
    rw [List.cons_append, List.dropWhile_cons, List.dropWhile_cons, ih]
    split
    next => rfl
    next => rfl

theorem partsBehind_append (scheme : Scheme) {cs : Text} (rest : Text)
    (h : (partsBehind scheme cs).authority ≠ []) :
    partsBehind scheme (cs ++ '/' :: rest) =
      { partsBehind scheme cs with
        path := (behindAuthority cs ++ '/' :: rest).takeWhile (!isQuery ·) } := by
  have hdrop : (cs ++ '/' :: rest).dropWhile isSlash = cs.dropWhile isSlash ++ '/' :: rest := by
    have hne : cs.dropWhile isSlash ≠ [] := by
      intro hnil
      simp [partsBehind, hnil] at h
    rw [List.dropWhile_append, if_neg (by simpa using hne)]
  unfold partsBehind behindAuthority
  rw [hdrop]
  dsimp only
  rw [takeWhile_append_stop (by decide), dropWhile_append_stop (by decide)]

theorem mem_of_mem_dropNewlines {c : Char} {cs : Text} (h : c ∈ dropNewlines cs) : c ∈ cs := by
  unfold dropNewlines at h
  exact (List.mem_filter.mp h).1

theorem mem_dropNewlines {c : Char} {cs : Text} (h : c ∈ cs) (hc : isNewline c = false) :
    c ∈ dropNewlines cs := by
  unfold dropNewlines
  exact List.mem_filter.mpr ⟨h, by simp [hc]⟩

theorem isNewline_of_isQuery {c : Char} (h : isQuery c = true) : isNewline c = false := by
  unfold isQuery at h
  rw [Bool.or_eq_true, beq_iff_eq, beq_iff_eq] at h
  obtain rfl | rfl := h <;> rfl

theorem not_isQuery_of_scheme {before : Text} {scheme : Scheme}
    (h : schemeOf before = some scheme) {c : Char} (hc : c ∈ before) : isQuery c = false := by
  have hmem : c.toLower ∈ before.map Char.toLower := List.mem_map_of_mem hc
  have hletters : before.map Char.toLower = "http".toList ∨
      before.map Char.toLower = "https".toList := by
    unfold schemeOf at h
    dsimp only at h
    split at h
    next hhttp => exact Or.inl hhttp
    next =>
      split at h
      next hhttps => exact Or.inr hhttps
      next => cases h
  cases hq : isQuery c with
  | false => rfl
  | true =>
    unfold isQuery at hq
    rw [Bool.or_eq_true, beq_iff_eq, beq_iff_eq] at hq
    obtain hl | hl := hletters <;> rw [hl] at hmem <;> obtain rfl | rfl := hq <;>
      exact absurd hmem (by decide)

theorem behindAuthority_query {cs : Text} {c : Char} (hc : c ∈ cs) (hq : isQuery c = true) :
    c ∈ behindAuthority cs := by
  have hslash : isSlash c = false := by
    unfold isQuery at hq
    rw [Bool.or_eq_true, beq_iff_eq, beq_iff_eq] at hq
    obtain rfl | rfl := hq <;> rfl
  have hdrop : c ∈ cs.dropWhile isSlash := by
    rw [← @List.takeWhile_append_dropWhile _ isSlash cs, List.mem_append] at hc
    refine hc.resolve_left fun hmem => ?_
    rw [List.mem_takeWhile_imp hmem] at hslash
    cases hslash
  unfold behindAuthority
  rw [← @List.takeWhile_append_dropWhile _ (!isEnd ·) (cs.dropWhile isSlash),
    List.mem_append] at hdrop
  refine hdrop.resolve_left fun hmem => ?_
  have hend := List.mem_takeWhile_imp hmem
  simp [isEnd, hq] at hend

theorem mem_of_mem_behindAuthority {cs : Text} {c : Char} (h : c ∈ behindAuthority cs) :
    c ∈ cs := by
  unfold behindAuthority at h
  exact (List.dropWhile_sublist _).subset ((List.dropWhile_sublist _).subset h)

/-- What a slash and more text behind an endpoint make of the parts of it. -/
theorem parts_append {cs : Text} {p : Parts} (hcs : Unpadded cs) (hparts : parts cs = some p)
    (ha : p.authority ≠ []) (rest : Text) :
    ∃ t, p.path = t.takeWhile (!isQuery ·) ∧
      ((∀ c ∈ t, isQuery c = false) ↔ ∀ c ∈ cs, isQuery c = false) ∧
      parts (cs ++ '/' :: rest) =
        some { p with path := (t ++ '/' :: tidyEnd rest).takeWhile (!isQuery ·) } := by
  unfold parts at hparts ⊢
  rw [hcs.tidy_eq, Option.bind_eq_bind, Option.bind_eq_some_iff] at hparts
  obtain ⟨⟨before, behind⟩, hsplit, hparts⟩ := hparts
  rw [Option.bind_eq_bind, Option.bind_eq_some_iff] at hparts
  obtain ⟨scheme, hscheme, hparts⟩ := hparts
  obtain rfl := Option.some.inj hparts
  have htext := eq_of_splitColon hsplit
  refine ⟨behindAuthority behind, rfl, ?_, ?_⟩
  · constructor
    · intro h c hc
      by_contra hq
      have hq : isQuery c = true := by simpa using hq
      have hmem := mem_dropNewlines hc (isNewline_of_isQuery hq)
      rw [htext, List.mem_append, List.mem_cons] at hmem
      obtain hmem | rfl | hmem := hmem
      · rw [not_isQuery_of_scheme hscheme hmem] at hq
        cases hq
      · cases hq
      · rw [h c (behindAuthority_query hmem hq)] at hq
        cases hq
    · intro h c hc
      refine h c (mem_of_mem_dropNewlines ?_)
      rw [htext]
      exact List.mem_append_right _ (List.mem_cons_of_mem _ (mem_of_mem_behindAuthority hc))
  · obtain ⟨c, tail, rfl, hc⟩ := hcs.head
    rw [tidy_append hc, splitColon_append hsplit]
    simp only [Option.bind_eq_bind, Option.bind_some, hscheme]
    rw [partsBehind_append scheme _ ha]
    rfl

/-- The parts of a URL with a name before its path. -/
theorem parts_https {host : Text} (hne : host ≠ [])
    (hhost : ∀ c ∈ host, isBlank c = false ∧ isEnd c = false) (rest : Text) :
    parts ("https://".toList ++ host ++ '/' :: rest) =
      some ⟨.https, host, '/' :: (tidyEnd rest).takeWhile (!isQuery ·)⟩ := by
  have hnewlines : dropNewlines ("https://".toList ++ host) = "https://".toList ++ host := by
    have hfilter : host.filter (!isNewline ·) = host := by
      rw [List.filter_eq_self]
      intro c hc
      have hblank := (hhost c hc).1
      cases hnl : isNewline c with
      | false => rfl
      | true =>
        unfold isNewline at hnl
        simp only [Bool.or_eq_true, beq_iff_eq] at hnl
        obtain (rfl | rfl) | rfl := hnl <;> cases hblank
    unfold dropNewlines
    rw [List.filter_append, hfilter]
    rfl
  have htidy : tidy ("https://".toList ++ host ++ '/' :: rest) =
      "https://".toList ++ host ++ '/' :: tidyEnd rest :=
    (tidy_append (c := 'h') rfl ("ttps://".toList ++ host) rest).trans
      (congrArg (· ++ '/' :: tidyEnd rest) hnewlines)
  have hsplit : splitColon ("https://".toList ++ host ++ '/' :: tidyEnd rest) =
      some ("https".toList, "//".toList ++ (host ++ '/' :: tidyEnd rest)) := by
    rw [List.append_assoc]
    rfl
  have hdrop : ("//".toList ++ (host ++ '/' :: tidyEnd rest)).dropWhile isSlash =
      host ++ '/' :: tidyEnd rest := by
    obtain ⟨c, tail, rfl⟩ := List.exists_cons_of_ne_nil hne
    have hend := (hhost c List.mem_cons_self).2
    unfold isEnd at hend
    rw [Bool.or_eq_false_iff] at hend
    show ('/' :: '/' :: (c :: tail ++ '/' :: tidyEnd rest)).dropWhile isSlash = _
    rw [List.dropWhile_cons_of_pos rfl, List.dropWhile_cons_of_pos rfl, List.cons_append,
      List.dropWhile_cons_of_neg (by simp [hend.1])]
  have hall : ∀ c ∈ host, (!isEnd c) = true := fun c hc => by simp [(hhost c hc).2]
  unfold parts
  rw [htidy, hsplit]
  simp only [Option.bind_eq_bind, Option.bind_some]
  rw [show schemeOf "https".toList = some .https from rfl]
  simp only [Option.bind_some]
  unfold partsBehind
  dsimp only
  rw [hdrop, takeWhile_append_stop rfl, List.takeWhile_eq_self_iff.mpr hall,
    dropWhile_append_stop rfl, List.dropWhile_eq_nil_iff.mpr hall, List.nil_append,
    List.takeWhile_cons_of_pos rfl]
  rfl

/-! ## The walk -/

/-- What is left of a path when more segments follow. -/
def kept : Text → List Text
  | [] => []
  | c :: cs => ((segments (c :: cs)).map encode).foldl stepPath []

def endsInDot (path : Text) : Bool := ((segments path).map encode).getLast?.any isDot

theorem walk_append {ts : List Text} (hts : ts ≠ []) (path ss : List Text) :
    walk path (ss ++ ts) = walk (ss.foldl stepPath path) ts := by
  induction ss generalizing path with
  | nil => rfl
  | cons s ss ih =>
    obtain ⟨t, rest, hcons⟩ := List.exists_cons_of_ne_nil (show ss ++ ts ≠ [] by simp [hts])
    rw [List.cons_append, hcons, walk, ← hcons, ih, List.foldl_cons]

theorem join_append (path path' : List Text) : join (path ++ path') = join path ++ join path' :=
  List.flatMap_append

theorem pathname_append (path rest : Text) :
    pathname (path ++ '/' :: rest) =
      join (walk (kept path) ((rest.splitOnP isSlash).map encode)) := by
  unfold pathname
  cases path with
  | nil => rfl
  | cons c cs =>
    rw [List.cons_append, segments, List.splitOnP_append_cons cs rest rfl, List.map_append,
      walk_append (by simp)]
    rfl

/-- A path that is walked to its end keeps an empty segment behind a dot segment. -/
theorem pathname_cons (c : Char) (cs : Text) :
    pathname (c :: cs) =
      join (kept (c :: cs)) ++ if endsInDot (c :: cs) then ['/'] else [] := by
  have hne : (segments (c :: cs)).map encode ≠ [] := by simp [segments]
  unfold pathname kept endsInDot
  dsimp only
  generalize (segments (c :: cs)).map encode = ss at hne ⊢
  obtain ⟨init, last, rfl⟩ := (List.eq_nil_or_concat ss).resolve_left hne
  rw [List.concat_eq_append, walk_append (by simp), walk, join_append, List.foldl_append]
  simp only [List.foldl_cons, List.foldl_nil, List.getLast?_concat, Option.any_some]
  cases isDot last <;> rfl

theorem walk_undotted {ss : List Text} (h : ∀ s ∈ ss, isDot s = false) (path : List Text) :
    walk path ss = path ++ ss := by
  have hstep : ∀ s, isDot s = false → ∀ path, stepPath path s = path ++ [s] := by
    intro s hs path
    unfold isDot at hs
    rw [Bool.or_eq_false_iff] at hs
    unfold stepPath
    rw [if_neg (by simp [hs.2]), if_neg (by simp [hs.1])]
  induction ss generalizing path with
  | nil => simp [walk]
  | cons s ss ih =>
    have hs := h s List.mem_cons_self
    cases ss with
    | nil => rw [walk, hstep s hs, hs, if_neg (by simp), List.append_nil]
    | cons t ss =>
      rw [walk, hstep s hs, ih fun s hs => h s (List.mem_cons_of_mem _ hs), List.append_assoc]
      rfl

/-! ## Decoding -/

def utf8 (cs : Text) : List UInt8 := cs.flatMap String.utf8EncodeChar

@[simp] theorem utf8_append (cs ds : Text) : utf8 (cs ++ ds) = utf8 cs ++ utf8 ds :=
  List.flatMap_append

@[simp] theorem utf8_cons (c : Char) (cs : Text) :
    utf8 (c :: cs) = String.utf8EncodeChar c ++ utf8 cs := rfl

theorem utf8_slash : String.utf8EncodeChar '/' = [47] := rfl

theorem percentDecode_slash (cs rest : Text) :
    percentDecode (cs ++ '/' :: rest) = percentDecode cs ++ 47 :: percentDecode rest :=
  percentDecode_append (by decide) (by decide) cs rest

/-- The bytes that a path stands for. -/
def pathBytes (path : List Text) : List UInt8 := path.flatMap fun s => 47 :: percentDecode s

@[simp] theorem pathBytes_append (path path' : List Text) :
    pathBytes (path ++ path') = pathBytes path ++ pathBytes path' := List.flatMap_append

@[simp] theorem pathBytes_cons (s : Text) (path : List Text) :
    pathBytes (s :: path) = 47 :: (percentDecode s ++ pathBytes path) := rfl

theorem percentDecode_join (path : List Text) : percentDecode (join path) = pathBytes path := by
  induction path with
  | nil => simp [join, pathBytes, percentDecode]
  | cons s path ih =>
    have hjoin : join (s :: path) = '/' :: (s ++ join path) := rfl
    rw [pathBytes_cons, ← ih, hjoin, percentDecode_cons (by decide), utf8_slash,
      List.singleton_append]
    cases path with
    | nil => simp [join, percentDecode]
    | cons t path =>
      have htail : join (t :: path) = '/' :: (t ++ join path) := rfl
      rw [htail, percentDecode_slash, percentDecode_cons (by decide), utf8_slash,
        List.singleton_append]

theorem percentDecode_encodeBytes (bs : List UInt8) (rest : Text) :
    percentDecode (bs.flatMap percentEncodeByte ++ rest) = bs ++ percentDecode rest := by
  induction bs with
  | nil => rfl
  | cons b bs ih =>
    rw [List.flatMap_cons, List.append_assoc, percentDecode_encodeByte, ih, List.cons_append]

theorem inPathSet_of_hexValue {c : Char} {x : Nat} (h : hexValue c = some x) :
    inPathSet c = false := by
  have hrange : 48 ≤ c.toNat ∧ c.toNat ≤ 57 ∨ 65 ≤ c.toNat ∧ c.toNat ≤ 70 ∨
      97 ≤ c.toNat ∧ c.toNat ≤ 102 := by
    unfold hexValue at h
    simp only [Char.le_def, UInt32.le_iff_toNat_le] at h
    have hc : c.val.toNat = c.toNat := rfl
    rw [hc] at h
    split at h
    next hd => exact Or.inl hd
    next =>
      split at h
      next hd => exact Or.inr (Or.inl hd)
      next =>
        split at h
        next hd => exact Or.inr (Or.inr hd)
        next => cases h
  have hne : ∀ d : Char, d ∈ [' ', '"', '#', '<', '>', '?', '^', '\x60', '\x7b', '\x7d'] →
      c ≠ d := by
    rintro d hd rfl
    simp only [List.mem_cons, List.not_mem_nil, or_false] at hd
    obtain rfl | rfl | rfl | rfl | rfl | rfl | rfl | rfl | rfl | rfl := hd <;>
      revert hrange <;> decide
  unfold inPathSet
  simp only [Bool.or_eq_false_iff, decide_eq_false_iff_not, List.contains_eq_mem]
  exact ⟨⟨by omega, by omega⟩, fun hmem => hne c hmem rfl⟩

theorem encodeChar_of_mem {c : Char} (h : inPathSet c = true) :
    ∃ rest, encodeChar c = '%' :: rest := by
  obtain ⟨b, bs, hbs⟩ := List.exists_cons_of_ne_nil (encodeChar_ne_nil c)
  unfold encodeChar
  rw [if_pos h, hbs]
  exact ⟨_, rfl⟩

theorem encodeChar_of_not_mem {c : Char} (h : inPathSet c = false) : encodeChar c = [c] := by
  unfold encodeChar
  rw [if_neg (by simp [h])]

theorem startsGroup_encode (cs : Text) : startsGroup (encode cs) = startsGroup cs := by
  have hnone : ∀ c, inPathSet c = true → hexValue c = none := by
    intro c hc
    cases hx : hexValue c with
    | none => rfl
    | some x => rw [inPathSet_of_hexValue hx] at hc; cases hc
  have hpercent : ∀ rest, startsGroup ('%' :: rest) = false := by
    intro rest
    cases rest <;> rfl
  cases cs with
  | nil => rfl
  | cons a cs =>
    have hencode : encode (a :: cs) = encodeChar a ++ encode cs := rfl
    cases ha : inPathSet a with
    | true =>
      obtain ⟨rest, hrest⟩ := encodeChar_of_mem ha
      rw [hencode, hrest, List.cons_append, hpercent]
      cases cs <;> simp [startsGroup, hnone a ha]
    | false =>
      rw [hencode, encodeChar_of_not_mem ha, List.singleton_append]
      cases cs with
      | nil => rfl
      | cons b cs =>
        have hencode : encode (b :: cs) = encodeChar b ++ encode cs := rfl
        cases hb : inPathSet b with
        | true =>
          obtain ⟨rest, hrest⟩ := encodeChar_of_mem hb
          rw [hencode, hrest, List.cons_append]
          simp [startsGroup, hnone b hb, show hexValue '%' = none from rfl]
        | false =>
          rw [hencode, encodeChar_of_not_mem hb]
          rfl

/-- An encoded text stands for the bytes that the text stands for. -/
theorem percentDecode_encode (cs : Text) : percentDecode (encode cs) = percentDecode cs := by
  have hencode : ∀ c cs, encode (c :: cs) = encodeChar c ++ encode cs := fun _ _ => rfl
  induction cs using group_induction with
  | nil => rfl
  | char c cs hc ih =>
    rw [hencode, percentDecode_cons hc, ← ih]
    unfold encodeChar
    split
    next => exact percentDecode_encodeBytes _ _
    next => rw [List.singleton_append, percentDecode_cons hc]
  | percent cs hstart ih =>
    rw [hencode, encodeChar_of_not_mem rfl, List.singleton_append,
      percentDecode_percent (by rw [startsGroup_encode, hstart]), ih,
      percentDecode_percent hstart]
  | group a b x y cs ha hb ih =>
    rw [hencode, hencode, hencode, encodeChar_of_not_mem rfl,
      encodeChar_of_not_mem (inPathSet_of_hexValue ha),
      encodeChar_of_not_mem (inPathSet_of_hexValue hb), List.singleton_append,
      List.singleton_append, List.singleton_append, percentDecode_group ha hb, ih,
      percentDecode_group ha hb]

theorem pathBytes_encode (ss : List Text) : pathBytes (ss.map encode) = pathBytes ss := by
  unfold pathBytes
  rw [List.flatMap_map]
  simp only [percentDecode_encode]

theorem encode_ascii {cs : Text} : ∀ c ∈ encode cs, c.toNat < 128 := by
  have hdigit : ∀ n < 16, (upperDigit n).toNat < 128 := by decide
  intro c hc
  obtain ⟨d, -, hc⟩ := List.mem_flatMap.mp hc
  unfold encodeChar at hc
  split at hc
  next =>
    obtain ⟨b, -, hc⟩ := List.mem_flatMap.mp hc
    have hlt := b.toNat_lt
    simp only [percentEncodeByte, List.mem_cons, List.not_mem_nil, or_false] at hc
    obtain rfl | rfl | rfl := hc
    · decide
    · exact hdigit _ (by omega)
    · exact hdigit _ (by omega)
  next hset =>
    rw [List.mem_singleton] at hc
    subst hc
    simp only [inPathSet, Bool.or_eq_true, decide_eq_true_eq, not_or] at hset
    omega

theorem foldl_stepPath_subset (ss path : List Text) :
    ∀ s ∈ ss.foldl stepPath path, s ∈ path ∨ s ∈ ss := by
  induction ss generalizing path with
  | nil => exact fun s hs => Or.inl hs
  | cons t ss ih =>
    intro s hs
    rw [List.foldl_cons] at hs
    obtain hs | hs := ih _ s hs
    · unfold stepPath at hs
      split at hs
      next => exact Or.inl (List.mem_of_mem_dropLast hs)
      next =>
        split at hs
        next => exact Or.inl hs
        next =>
          obtain hs | hs := List.mem_append.mp hs
          · exact Or.inl hs
          · rw [List.mem_singleton] at hs
            exact Or.inr (List.mem_cons.mpr (Or.inl hs))
    · exact Or.inr (List.mem_cons_of_mem _ hs)

theorem kept_ascii (path : Text) : ∀ c ∈ join (kept path), c.toNat < 128 := by
  intro c hc
  obtain ⟨s, hs, hc⟩ := List.mem_flatMap.mp hc
  obtain rfl | hc := List.mem_cons.mp hc
  · decide
  · cases path with
    | nil => cases hs
    | cons d cs =>
      obtain hs | hs := foldl_stepPath_subset _ _ s hs
      · cases hs
      · obtain ⟨t, -, rfl⟩ := List.mem_map.mp hs
        exact encode_ascii c hc

/-! ## Splitting at slashes -/

/-- A browser takes a backslash for a slash. -/
def slashed (cs : Text) : Text := cs.map fun c => if c = '\\' then '/' else c

/-- The first segment is where the text begins. -/
theorem exists_splitOnP (p : Char → Bool) (cs : Text) :
    ∃ s ss rest, cs.splitOnP p = s :: ss ∧ cs = s ++ rest := by
  induction cs with
  | nil => exact ⟨[], [], [], rfl, rfl⟩
  | cons c cs ih =>
    obtain ⟨s, ss, rest, hsplit, hcs⟩ := ih
    rw [List.splitOnP_cons_eq_if_modifyHead, hsplit]
    split
    next => exact ⟨[], _, c :: cs, rfl, rfl⟩
    next => exact ⟨c :: s, ss, rest, rfl, by rw [hcs]; rfl⟩

theorem startsGroup_of_append {cs rest : Text} (h : startsGroup cs = true) :
    startsGroup (cs ++ rest) = true := by
  cases cs with
  | nil => cases h
  | cons a cs =>
    cases cs with
    | nil => cases h
    | cons b cs => exact h

theorem startsGroup_slashed (cs : Text) : startsGroup (slashed cs) = startsGroup cs := by
  have hvalue : ∀ c, hexValue (if c = '\\' then '/' else c) = hexValue c := by
    intro c
    split
    next hc => rw [hc]; rfl
    next => rfl
  cases cs with
  | nil => rfl
  | cons a cs =>
    cases cs with
    | nil => rfl
    | cons b cs =>
      unfold slashed
      rw [List.map_cons, List.map_cons, startsGroup, startsGroup, hvalue, hvalue]

/-- The segments stand for what the text stands for. -/
theorem pathBytes_split (cs : Text) :
    pathBytes (cs.splitOnP isSlash) = 47 :: percentDecode (slashed cs) := by
  have hdigit : ∀ c x, hexValue c = some x → isSlash c = false := by
    intro c x hx
    unfold isSlash
    rw [Bool.or_eq_false_iff]
    constructor
    · cases hc : c == '/' with
      | false => rfl
      | true => rw [eq_of_beq hc] at hx; cases hx
    · cases hc : c == '\\' with
      | false => rfl
      | true => rw [eq_of_beq hc] at hx; cases hx
  have hsame : ∀ c, isSlash c = false → (if c = '\\' then '/' else c) = c := by
    intro c hc
    refine if_neg ?_
    rintro rfl
    cases hc
  have hhead : ∀ c cs s ss, isSlash c = false → cs.splitOnP isSlash = s :: ss →
      (c :: cs).splitOnP isSlash = (c :: s) :: ss := by
    intro c cs s ss hc hsplit
    rw [List.splitOnP_cons_eq_if_modifyHead, hc, hsplit]
    rfl
  induction cs using group_induction with
  | nil => simp [slashed, percentDecode, pathBytes]
  | char c cs hc ih =>
    obtain ⟨s, ss, rest, hsplit, hcs⟩ := exists_splitOnP isSlash cs
    cases hslash : isSlash c with
    | true =>
      have hstar : slashed (c :: cs) = '/' :: slashed cs := by
        unfold isSlash at hslash
        rw [Bool.or_eq_true, beq_iff_eq, beq_iff_eq] at hslash
        obtain rfl | rfl := hslash <;> rfl
      rw [List.splitOnP_cons_eq_if_modifyHead, if_pos hslash, pathBytes_cons, ih, hstar,
        percentDecode_cons (by decide), utf8_slash]
      simp [percentDecode]
    | false =>
      have hstar : slashed (c :: cs) = c :: slashed cs := by
        unfold slashed
        rw [List.map_cons, hsame c hslash]
      rw [hsplit, pathBytes_cons] at ih
      rw [hhead c cs s ss hslash hsplit, pathBytes_cons, percentDecode_cons hc, hstar,
        percentDecode_cons hc, ← List.cons.inj ih |>.2, List.append_assoc]
  | percent cs hstart ih =>
    obtain ⟨s, ss, rest, hsplit, hcs⟩ := exists_splitOnP isSlash cs
    have hs : startsGroup s = false := by
      cases hs : startsGroup s with
      | false => rfl
      | true => rw [hcs, startsGroup_of_append hs] at hstart; cases hstart
    have hstar : startsGroup (slashed cs) = false := by rw [startsGroup_slashed, hstart]
    rw [hsplit, pathBytes_cons] at ih
    rw [hhead _ cs s ss rfl hsplit, pathBytes_cons, percentDecode_percent hs]
    have hcons : slashed ('%' :: cs) = '%' :: slashed cs := rfl
    rw [hcons, percentDecode_percent hstar, ← (List.cons.inj ih).2, List.cons_append]
  | group a b x y cs ha hb ih =>
    obtain ⟨s, ss, rest, hsplit, hcs⟩ := exists_splitOnP isSlash cs
    have hstar : slashed ('%' :: a :: b :: cs) = '%' :: a :: b :: slashed cs := by
      unfold slashed
      rw [List.map_cons, List.map_cons, List.map_cons, hsame a (hdigit a x ha),
        hsame b (hdigit b y hb)]
      rfl
    rw [hsplit, pathBytes_cons] at ih
    have htail := hhead a _ _ ss (hdigit a x ha) (hhead b cs s ss (hdigit b y hb) hsplit)
    rw [hhead _ _ _ ss rfl htail, pathBytes_cons, percentDecode_group ha hb, hstar,
      percentDecode_group ha hb,
      ← (List.cons.inj ih).2, List.cons_append]

/-! ## What is lost

A weight for bytes: none for the bytes of characters beyond ASCII, and enough for `%`, `.` and `\`
that a browser only ever takes weight away from a path, and changes it as soon as it changes
anything.
-/

def byteWeight (b : UInt8) : Nat :=
  if 128 ≤ b.toNat then 0 else if b = 37 then 3 else if b = 46 ∨ b = 92 then 2 else 1

def weight (bs : List UInt8) : Nat := (bs.map byteWeight).sum

@[simp] theorem weight_nil : weight [] = 0 := rfl

@[simp] theorem weight_cons (b : UInt8) (bs : List UInt8) :
    weight (b :: bs) = byteWeight b + weight bs := by
  unfold weight
  rw [List.map_cons, List.sum_cons]

@[simp] theorem weight_append (bs bs' : List UInt8) :
    weight (bs ++ bs') = weight bs + weight bs' := by
  unfold weight
  rw [List.map_append, List.sum_append]

theorem byteWeight_le (b : UInt8) : byteWeight b ≤ 3 := by
  unfold byteWeight
  split
  next => omega
  next =>
    split
    next => omega
    next => split <;> omega

theorem byteWeight_pos {b : UInt8} (h : b.toNat < 128) : 1 ≤ byteWeight b := by
  unfold byteWeight
  rw [if_neg (by omega)]
  split
  next => omega
  next => split <;> omega

theorem weight_wide {c : Char} (h : 128 ≤ c.toNat) : weight (String.utf8EncodeChar c) = 0 := by
  have hwide : ∀ b ∈ String.utf8EncodeChar c, byteWeight b = 0 := by
    intro b hb
    have hge : 128 ≤ b.toNat := by
      by_contra hlt
      have := mem_encodeChar hb (by omega)
      omega
    unfold byteWeight
    rw [if_pos hge]
  unfold weight
  rw [List.sum_eq_zero]
  intro w hw
  obtain ⟨b, hb, rfl⟩ := List.mem_map.mp hw
  exact hwide b hb

theorem weight_pos {c : Char} (h : c.toNat < 128) : 1 ≤ weight (String.utf8EncodeChar c) := by
  rw [encodeChar_of_lt h, weight_cons]
  have := @byteWeight_pos (UInt8.ofNat c.toNat) (by rw [UInt8.toNat_ofNat']; omega)
  omega

theorem hexValue_lt {c : Char} {x : Nat} (h : hexValue c = some x) : c.toNat < 128 := by
  have hset := inPathSet_of_hexValue h
  unfold inPathSet at hset
  simp only [Bool.or_eq_false_iff, decide_eq_false_iff_not] at hset
  omega

/-- A group loses weight when it is decoded. -/
theorem weight_percentDecode (cs : Text) :
    weight (percentDecode cs) + (if hasGroup cs then 1 else 0) ≤ weight (utf8 cs) := by
  have hpercent : weight (String.utf8EncodeChar '%') = 3 := rfl
  induction cs using group_induction with
  | nil => simp [percentDecode, utf8, hasGroup]
  | char c cs hc ih =>
    have hgroup : hasGroup (c :: cs) = hasGroup cs := by simp [hasGroup, hc]
    rw [percentDecode_cons hc, hgroup, weight_append, utf8_cons, weight_append]
    omega
  | percent cs hstart ih =>
    have hgroup : hasGroup ('%' :: cs) = hasGroup cs := by simp [hasGroup, hstart]
    have hbyte : byteWeight 37 = 3 := rfl
    rw [percentDecode_percent hstart, hgroup, weight_cons, utf8_cons, weight_append, hpercent,
      hbyte]
    omega
  | group a b x y cs ha hb ih =>
    have hle := byteWeight_le (UInt8.ofNat (16 * x + y))
    have hwa := weight_pos (hexValue_lt ha)
    have hwb := weight_pos (hexValue_lt hb)
    rw [percentDecode_group ha hb, weight_cons, utf8_cons, utf8_cons, utf8_cons, weight_append,
      weight_append, weight_append, hpercent]
    split <;> omega

theorem weight_slashed (cs : Text) :
    weight (utf8 (slashed cs)) + (if '\\' ∈ cs then 1 else 0) ≤ weight (utf8 cs) := by
  induction cs with
  | nil => simp [slashed, utf8]
  | cons c cs ih =>
    have hcons : slashed (c :: cs) = (if c = '\\' then '/' else c) :: slashed cs := rfl
    rw [hcons, utf8_cons, utf8_cons, weight_append, weight_append]
    by_cases hc : c = '\\'
    · subst hc
      have hslash : weight (String.utf8EncodeChar '/') = 1 := rfl
      have hback : weight (String.utf8EncodeChar '\\') = 2 := rfl
      rw [if_pos rfl, if_pos List.mem_cons_self, hslash, hback]
      omega
    · have hmem : ('\\' ∈ c :: cs) = ('\\' ∈ cs) := by
        rw [List.mem_cons, eq_iff_iff]
        exact ⟨fun h => h.resolve_left (Ne.symm hc), Or.inr⟩
      rw [if_neg hc]
      simp only [hmem]
      omega

theorem length_le_weight {cs : Text} (h : ∀ c ∈ cs, c.toNat < 128) :
    cs.length ≤ weight (utf8 cs) := by
  induction cs with
  | nil => exact Nat.zero_le _
  | cons c cs ih =>
    have hc := weight_pos (h c List.mem_cons_self)
    have ih := ih fun d hd => h d (List.mem_cons_of_mem _ hd)
    rw [utf8_cons, weight_append, List.length_cons]
    omega

/-- Characters of ASCII have gone from between the others. -/
theorem weight_filter {p : Char → Bool} (hp : ∀ c, p c = false → c.toNat < 128) (cs : Text) :
    weight (utf8 (cs.filter p)) + (if cs.all p then 0 else 1) ≤ weight (utf8 cs) := by
  induction cs with
  | nil => simp [utf8]
  | cons c cs ih =>
    cases hc : p c with
    | true =>
      rw [List.filter_cons_of_pos hc, utf8_cons, utf8_cons, weight_append, weight_append,
        List.all_cons, hc, Bool.true_and]
      omega
    | false =>
      have hpos := weight_pos (hp c hc)
      rw [List.filter_cons_of_neg (by simp [hc]), utf8_cons, weight_append, List.all_cons, hc,
        Bool.false_and, if_neg (by simp)]
      split at ih <;> omega

theorem weight_takeWhile {p : Char → Bool} (hp : ∀ c, p c = false → c.toNat < 128) (cs : Text) :
    weight (utf8 (cs.takeWhile p)) + (if cs.all p then 0 else 1) ≤ weight (utf8 cs) := by
  induction cs with
  | nil => simp [utf8]
  | cons c cs ih =>
    cases hc : p c with
    | true =>
      rw [List.takeWhile_cons_of_pos hc, utf8_cons, utf8_cons, weight_append, weight_append,
        List.all_cons, hc, Bool.true_and]
      omega
    | false =>
      have hpos := weight_pos (hp c hc)
      rw [List.takeWhile_cons_of_neg (by simp [hc]), utf8_cons, weight_append, List.all_cons, hc,
        Bool.false_and, if_neg (by simp)]
      simp only [utf8, List.flatMap_nil, weight_nil]
      omega

theorem weight_rdropWhile {p : Char → Bool} (hp : ∀ c, p c = true → c.toNat < 128) (cs : Text) :
    weight (utf8 (cs.rdropWhile p)) + (if cs.rdropWhile p = cs then 0 else 1) ≤
      weight (utf8 cs) := by
  have hsplit : cs.rdropWhile p ++ cs.rtakeWhile p = cs := List.rdropWhile_append_rtakeWhile
  have hlen := length_le_weight (fun c hc => hp c (List.mem_rtakeWhile_imp (l := cs) hc))
  have hweight : weight (utf8 cs) =
      weight (utf8 (cs.rdropWhile p)) + weight (utf8 (cs.rtakeWhile p)) := by
    rw [← weight_append, ← utf8_append, hsplit]
  split
  next => omega
  next hne =>
    have hpos : 0 < (cs.rtakeWhile p).length := by
      rw [List.length_pos_iff]
      intro hnil
      rw [hnil, List.append_nil] at hsplit
      exact hne hsplit
    omega

/-- A dot segment is lost with at least the slash and the dot. -/
theorem weight_dot : ∀ s, isDot s = true → 2 ≤ weight (percentDecode s) := by
  intro s hs
  unfold isDot isSingleDot isDoubleDot at hs
  simp only [Bool.or_eq_true, List.any_eq_true, beq_iff_eq] at hs
  obtain ⟨t, ht, rfl⟩ | ⟨t, ht, rfl⟩ := hs
  · simp only [List.mem_cons, List.not_mem_nil, or_false] at ht
    obtain rfl | rfl | rfl := ht <;> decide
  · simp only [List.mem_cons, List.not_mem_nil, or_false] at ht
    obtain rfl | rfl | rfl | rfl | rfl | rfl | rfl | rfl | rfl := ht <;> decide

theorem weight_dropLast (path : List Text) :
    weight (pathBytes path.dropLast) ≤ weight (pathBytes path) := by
  obtain rfl | ⟨init, last, rfl⟩ := List.eq_nil_or_concat path
  · exact Nat.le_refl _
  · rw [List.concat_eq_append, List.dropLast_concat, pathBytes_append, weight_append]
    omega

theorem weight_stepPath (path : List Text) (s : Text) :
    weight (pathBytes (stepPath path s)) ≤
      weight (pathBytes path) + (if isDot s then 0 else 1 + weight (percentDecode s)) := by
  have hdrop := weight_dropLast path
  unfold stepPath
  split
  next => omega
  next hdd =>
    split
    next => omega
    next hsd =>
      have hs : isDot s = false := by simp [isDot, hdd, hsd]
      have hslash : byteWeight 47 = 1 := rfl
      simp only [pathBytes_append, pathBytes_cons, weight_append, weight_cons, hs, hslash]
      simp [pathBytes]

/-- A path that is walked loses the weight of its dot segments. -/
theorem weight_walk (path ss : List Text) :
    weight (pathBytes (walk path ss)) + (if ss.any isDot then 2 else 0) ≤
      weight (pathBytes path) + weight (pathBytes ss) := by
  have hslash : byteWeight 47 = 1 := rfl
  induction ss generalizing path with
  | nil => simp [walk]
  | cons s ss ih =>
    have hstep := weight_stepPath path s
    have hdot := weight_dot s
    cases ss with
    | nil =>
      rw [walk, pathBytes_append, weight_append, pathBytes_cons, weight_cons, weight_append,
        hslash, List.any_cons, List.any_nil, Bool.or_false]
      cases hs : isDot s with
      | true =>
        rw [hs] at hstep
        have hdot := hdot hs
        have hlast : weight (pathBytes [[]]) = 1 := rfl
        simp only [if_true, hlast] at hstep ⊢
        omega
      | false =>
        rw [hs] at hstep
        simp only [Bool.false_eq_true, if_false] at hstep ⊢
        simp only [pathBytes, List.flatMap_nil, weight_nil] at hstep ⊢
        omega
    | cons t ss =>
      have ih := ih (stepPath path s)
      rw [walk, pathBytes_cons, weight_cons, weight_append, hslash, List.any_cons]
      cases hs : isDot s with
      | true =>
        rw [hs] at hstep
        have hdot := hdot hs
        rw [Bool.true_or, if_pos rfl]
        rw [if_pos rfl] at hstep
        omega
      | false =>
        rw [hs] at hstep
        rw [Bool.false_or]
        rw [if_neg (by simp)] at hstep
        omega

end Haybarn.Lib.HttpUrl
