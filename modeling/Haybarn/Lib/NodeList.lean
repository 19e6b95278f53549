import Mathlib

/-!
# Lists whose positions stay valid

A doubly linked list hands out positions: an insertion returns the position of the new
element, and the position stays that element's until it is erased, whatever else is
inserted or erased. `NodeList α` keeps each element together with a position that no
other element has had before, so that a position kept elsewhere can be compared with
the list it points into. That positions are unique is a field of the structure.

`l.At k x` says that position `k` holds `x`; the lemmas say what each operation does to
`At`, and nothing else about the list is needed to use it. The end of the list is no
position: where a position may be the end, it is an `Option`.

`l.Tracks pos` is the relation between a list and the positions that its elements keep of
themselves: `pos x` is where `x` is, once, and what has no position is not in the list.
-/

namespace Haybarn.Lib

/-- A list with positions. -/
structure NodeList (α : Type) where
  nodes : List (Nat × α)
  /-- No position from here on has been handed out. -/
  fresh : Nat
  nodup : (nodes.map Prod.fst).Nodup
  lt_fresh : ∀ x ∈ nodes, x.1 < fresh

namespace NodeList

variable {α : Type} (l : NodeList α)

def empty : NodeList α := ⟨[], 0, by simp, by simp⟩

/-- Position `k` holds `x`. -/
def At (k : Nat) (x : α) : Prop := (k, x) ∈ l.nodes

def values : List α := l.nodes.map Prod.snd

/-- The element at a position. -/
def get? (k : Nat) : Option α := (l.nodes.find? (·.1 == k)).map Prod.snd

/-- The first position; the end, where there is none. -/
def first : Option Nat := l.nodes.head?.map Prod.fst

/-- The position after `k` in a list of nodes. -/
def nextIn (k : Nat) : List (Nat × α) → Option Nat
  | [] => none
  | x :: rest => if x.1 = k then rest.head?.map Prod.fst else nextIn k rest

/-- The position after `k`. -/
def next (k : Nat) : Option Nat := nextIn k l.nodes

theorem fresh_not_mem : l.fresh ∉ l.nodes.map Prod.fst := by
  intro h
  obtain ⟨x, hx, heq⟩ := List.mem_map.mp h
  exact absurd (l.lt_fresh x hx) (heq ▸ Nat.lt_irrefl _)

/-- Insert at the end. The new position is `l.fresh`. -/
def pushBack (x : α) : NodeList α where
  nodes := l.nodes ++ [(l.fresh, x)]
  fresh := l.fresh + 1
  nodup := by
    rw [List.map_append, List.map_singleton]
    exact l.nodup.append (List.nodup_singleton _) (by simpa using l.fresh_not_mem)
  lt_fresh := by
    intro y hy
    rcases List.mem_append.mp hy with hy | hy
    · exact Nat.lt_succ_of_lt (l.lt_fresh y hy)
    · rw [List.mem_singleton.mp hy]
      exact Nat.lt_succ_self _

/-- Insert at the front. The new position is `l.fresh`. -/
def pushFront (x : α) : NodeList α where
  nodes := (l.fresh, x) :: l.nodes
  fresh := l.fresh + 1
  nodup := by
    rw [List.map_cons]
    exact List.nodup_cons.mpr ⟨l.fresh_not_mem, l.nodup⟩
  lt_fresh := by
    intro y hy
    rcases List.mem_cons.mp hy with rfl | hy
    · exact Nat.lt_succ_self _
    · exact Nat.lt_succ_of_lt (l.lt_fresh y hy)

/-- Erase the element at a position. -/
def erase (k : Nat) : NodeList α where
  nodes := l.nodes.filter (·.1 != k)
  fresh := l.fresh
  nodup := l.nodup.sublist (List.filter_sublist.map _)
  lt_fresh := fun x hx => l.lt_fresh x (List.mem_of_mem_filter hx)

/-! ## What the operations do to the positions -/

variable {l} {k j : Nat} {x y : α}

/-- A position holds one element. -/
theorem At.unique (hx : l.At k x) (hy : l.At k y) : x = y :=
  (Prod.ext_iff.mp (List.inj_on_of_nodup_map l.nodup hx hy rfl)).2

@[simp] theorem not_at_empty : ¬ (empty : NodeList α).At k x := by
  simp [At, empty]

@[simp] theorem at_pushBack : (l.pushBack x).At j y ↔ l.At j y ∨ (j = l.fresh ∧ y = x) := by
  simp [At, pushBack]

@[simp] theorem at_pushFront : (l.pushFront x).At j y ↔ l.At j y ∨ (j = l.fresh ∧ y = x) := by
  simp [At, pushFront, or_comm]

@[simp] theorem at_erase : (l.erase k).At j y ↔ l.At j y ∧ j ≠ k := by
  simp [At, erase]

theorem get?_eq_some : l.get? k = some x ↔ l.At k x := by
  constructor
  · intro h
    obtain ⟨⟨j, y⟩, hfind, rfl⟩ := Option.map_eq_some_iff.mp h
    have hj : j = k := by simpa using List.find?_some hfind
    exact hj ▸ List.mem_of_find?_eq_some hfind
  · intro h
    have hsome : (l.nodes.find? (·.1 == k)).isSome := by
      rw [List.find?_isSome]
      exact ⟨_, h, by simp⟩
    obtain ⟨⟨j, y⟩, hfind⟩ := Option.isSome_iff_exists.mp hsome
    have hj : j = k := by simpa using List.find?_some hfind
    subst hj
    have hy : y = x := At.unique (l := l) (List.mem_of_find?_eq_some hfind) h
    rw [get?, hfind, hy]
    rfl

/-- The first position is a position of the list. -/
theorem at_first (h : l.first = some k) : ∃ x, l.At k x := by
  obtain ⟨⟨j, y⟩, hhead, rfl⟩ := Option.map_eq_some_iff.mp h
  exact ⟨y, List.mem_of_mem_head? hhead⟩

theorem first_eq_none : l.first = none ↔ ∀ k x, ¬ l.At k x := by
  rw [first, Option.map_eq_none_iff, List.head?_eq_none_iff, List.eq_nil_iff_forall_not_mem]
  exact ⟨fun h k x => h (k, x), fun h x => h x.1 x.2⟩

private theorem mem_of_nextIn : ∀ {xs : List (Nat × α)}, nextIn k xs = some j →
    ∃ y, (j, y) ∈ xs
  | [], h => nomatch h
  | x :: rest, h => by
    rw [nextIn] at h
    split at h
    · obtain ⟨⟨i, y⟩, hhead, rfl⟩ := Option.map_eq_some_iff.mp h
      exact ⟨y, List.mem_cons_of_mem _ (List.mem_of_mem_head? hhead)⟩
    · obtain ⟨y, hy⟩ := mem_of_nextIn h
      exact ⟨y, List.mem_cons_of_mem _ hy⟩

/-- The position after another one is a position of the list. -/
theorem at_next (h : l.next k = some j) : ∃ y, l.At j y := mem_of_nextIn h

/-- Without its first element, a list starts where the second one was. -/
theorem first_erase_first (h : l.first = some k) : (l.erase k).first = l.next k := by
  obtain ⟨nodes, fresh, nodup, hlt⟩ := l
  cases nodes with
  | nil => cases h
  | cons x rest =>
    obtain rfl : x.1 = k := by simpa [first] using h
    have hrest : rest.filter (·.1 != x.1) = rest := by
      rw [List.filter_eq_self]
      intro y hy
      have hnot := (List.nodup_cons.mp nodup).1
      exact bne_iff_ne.mpr fun heq => hnot (List.mem_map.mpr ⟨y, hy, heq⟩)
    simp [first, next, nextIn, erase, hrest]

/-! ## The elements -/

theorem mem_values : x ∈ l.values ↔ ∃ k, l.At k x := by
  simp [values, At]

private theorem count_of_unique [DecidableEq α] : ∀ {xs : List (Nat × α)},
    (xs.map Prod.fst).Nodup → (k, x) ∈ xs → (∀ j, (j, x) ∈ xs → j = k) →
    (xs.map Prod.snd).count x = 1
  | [], _, h, _ => nomatch h
  | (i, y) :: rest, hnodup, hmem, huniq => by
    rw [List.map_cons, List.nodup_cons] at hnodup
    rw [List.map_cons, List.count_cons]
    by_cases hy : y = x
    · -- the head is the one: `x` is not in the tail
      subst hy
      have hi : i = k := huniq i (by simp)
      have hrest : y ∉ rest.map Prod.snd := by
        intro hmem'
        obtain ⟨⟨j, z⟩, hz, rfl⟩ := List.mem_map.mp hmem'
        have hj : j = k := huniq j (List.mem_cons_of_mem _ hz)
        exact hnodup.1 (List.mem_map.mpr ⟨_, hz, hj.trans hi.symm⟩)
      simp [List.count_eq_zero_of_not_mem hrest]
    · have hmem' : (k, x) ∈ rest := by
        rcases List.mem_cons.mp hmem with heq | h
        · exact absurd (Prod.ext_iff.mp heq).2.symm hy
        · exact h
      have ih := count_of_unique hnodup.2 hmem'
        (fun j hj => huniq j (List.mem_cons_of_mem _ hj))
      simp [ih, hy]

/-- An element with one position is in the list once. -/
theorem count_values [DecidableEq α] (h : l.At k x) (huniq : ∀ j, l.At j x → j = k) :
    l.values.count x = 1 :=
  count_of_unique l.nodup h huniq

theorem count_values_eq_zero [DecidableEq α] (h : ∀ j, ¬ l.At j x) : l.values.count x = 0 := by
  rw [List.count_eq_zero, mem_values]
  exact fun ⟨k, hk⟩ => h k hk

/-! ## Elements that know where they are -/

/-- `pos` says of every `x` where it is in the list, if it is there. -/
def Tracks (l : NodeList α) (pos : α → Option Nat) : Prop := ∀ k x, l.At k x ↔ pos x = some k

namespace Tracks

variable {pos pos' : α → Option Nat}

theorem empty : (NodeList.empty : NodeList α).Tracks fun _ => none :=
  fun _ _ => ⟨fun h => absurd h not_at_empty, nofun⟩

theorem congr (h : l.Tracks pos) (hpos : ∀ x, pos' x = pos x) : l.Tracks pos' := by
  intro k x
  rw [hpos x]
  exact h k x

theorem erase (h : l.Tracks pos) (hk : pos x = some k) (hx : pos' x = none)
    (hother : ∀ y, y ≠ x → pos' y = pos y) : (l.erase k).Tracks pos' := by
  intro j y
  rw [at_erase, h j y]
  by_cases hy : y = x
  · subst hy
    rw [hx, hk]
    simp [eq_comm]
  · rw [hother y hy]
    refine ⟨fun hj => hj.1, fun hj => ⟨hj, ?_⟩⟩
    rintro rfl
    exact hy (((h j y).mpr hj).unique ((h j x).mpr hk))

private theorem push {l' : NodeList α} (h : l.Tracks pos)
    (hat : ∀ j y, l'.At j y ↔ l.At j y ∨ (j = l.fresh ∧ y = x)) (hx : pos x = none)
    (hx' : pos' x = some l.fresh) (hother : ∀ y, y ≠ x → pos' y = pos y) : l'.Tracks pos' := by
  intro j y
  rw [hat, h j y]
  by_cases hy : y = x
  · subst hy
    rw [hx, hx']
    simp [eq_comm]
  · rw [hother y hy]
    simp [hy]

theorem pushBack (h : l.Tracks pos) (hx : pos x = none) (hx' : pos' x = some l.fresh)
    (hother : ∀ y, y ≠ x → pos' y = pos y) : (l.pushBack x).Tracks pos' :=
  h.push (fun _ _ => at_pushBack) hx hx' hother

theorem pushFront (h : l.Tracks pos) (hx : pos x = none) (hx' : pos' x = some l.fresh)
    (hother : ∀ y, y ≠ x → pos' y = pos y) : (l.pushFront x).Tracks pos' :=
  h.push (fun _ _ => at_pushFront) hx hx' hother

theorem mem_values (h : l.Tracks pos) : x ∈ l.values ↔ (pos x).isSome := by
  rw [NodeList.mem_values, Option.isSome_iff_exists]
  exact exists_congr fun k => h k x

theorem get? (h : l.Tracks pos) (hk : pos x = some k) : l.get? k = some x :=
  get?_eq_some.mpr ((h k x).mpr hk)

/-- What has a position is in the list once. -/
theorem count [DecidableEq α] (h : l.Tracks pos) (hk : pos x = some k) : l.values.count x = 1 :=
  count_values ((h k x).mpr hk) fun j hj =>
    Option.some.inj (((h j x).mp hj).symm.trans hk)

theorem count_eq_zero [DecidableEq α] (h : l.Tracks pos) (hx : pos x = none) :
    l.values.count x = 0 :=
  count_values_eq_zero fun j hj => nomatch ((h j x).mp hj).symm.trans hx

end Tracks

end NodeList

end Haybarn.Lib
