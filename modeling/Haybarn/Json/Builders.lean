import Haybarn.Json.Types

/-!
# Nested types and their builders

The Arrow types that are made of others, and the builders of their arrays: what a builder holds of
its own (validity, offsets, type ids), and the builders of its children. The lengths have to fit
together; `Spec.ok` of a type says how. Builders only grow (`Extends`).

Mirroring notes:
- The types without children are a parameter, with what their parsers take.
- A builder of a list records the length of its child before the elements of a list are appended.
  Its last offset is that length when the array is finished.
- `AppendNull` is Arrow's and not part of the repository, so it is a parameter (`Arrow`): one more
  slot, and everything still fits together. Its code for a union asks for the first of the children.
- Lists with 64-bit offsets are lists.
-/

namespace Haybarn.Json

open Lib.JsonDoc

inductive UnionMode
  | sparse
  | dense
  deriving DecidableEq

/-- An Arrow type, over the ones without children. -/
inductive NestedType (L : Type)
  | leaf (type : L)
  | list (value : NestedType L)
  | fixedSizeList (listSize : Nat) (value : NestedType L)
  | map (key item : NestedType L)
  | struct (fields : List (String × NestedType L))
  | union (mode : UnionMode) (typeCodes : List Nat) (fields : List (String × NestedType L))

/-- The builder of an array. -/
inductive Builder (V : Type)
  | leaf (values : List (Option V))
  | list (offsets : List Nat) (valid : List Bool) (child : Builder V)
  | fixedSizeList (valid : List Bool) (child : Builder V)
  | map (offsets : List Nat) (valid : List Bool) (key item : Builder V)
  | struct (valid : List Bool) (children : List (Builder V))
  /-- Only a dense union has offsets. -/
  | union (types : List Nat) (offsets : List Nat) (children : List (Builder V))

variable {L V : Type}

def Builder.length : Builder V → Nat
  | .leaf values => values.length
  | .list _ valid _ | .fixedSizeList valid _ | .map _ valid _ _ | .struct valid _ => valid.length
  | .union types _ _ => types.length

/-! ## What was appended stays -/

mutual

/-- The builder holds what the other one held. -/
def Extends : Builder V → Builder V → Prop
  | .leaf values, b => ∃ values', b = .leaf values' ∧ values <+: values'
  | .list offsets valid child, b => ∃ offsets' valid' child',
    b = .list offsets' valid' child' ∧ offsets <+: offsets' ∧ valid <+: valid' ∧
      Extends child child'
  | .fixedSizeList valid child, b => ∃ valid' child',
    b = .fixedSizeList valid' child' ∧ valid <+: valid' ∧ Extends child child'
  | .map offsets valid key item, b => ∃ offsets' valid' key' item',
    b = .map offsets' valid' key' item' ∧ offsets <+: offsets' ∧ valid <+: valid' ∧
      Extends key key' ∧ Extends item item'
  | .struct valid children, b => ∃ valid' children',
    b = .struct valid' children' ∧ valid <+: valid' ∧ ExtendsAll children children'
  | .union types offsets children, b => ∃ types' offsets' children',
    b = .union types' offsets' children' ∧ types <+: types' ∧ offsets <+: offsets' ∧
      ExtendsAll children children'

def ExtendsAll : List (Builder V) → List (Builder V) → Prop
  | [], bs => bs = []
  | c :: cs, bs => ∃ c' cs', bs = c' :: cs' ∧ Extends c c' ∧ ExtendsAll cs cs'

end

mutual

theorem Extends.refl : ∀ b : Builder V, Extends b b
  | .leaf values => ⟨values, rfl, List.prefix_refl _⟩
  | .list offsets valid child =>
    ⟨offsets, valid, child, rfl, List.prefix_refl _, List.prefix_refl _, Extends.refl child⟩
  | .fixedSizeList valid child => ⟨valid, child, rfl, List.prefix_refl _, Extends.refl child⟩
  | .map offsets valid key item => ⟨offsets, valid, key, item, rfl, List.prefix_refl _,
    List.prefix_refl _, Extends.refl key, Extends.refl item⟩
  | .struct valid children =>
    ⟨valid, children, rfl, List.prefix_refl _, ExtendsAll.refl children⟩
  | .union types offsets children => ⟨types, offsets, children, rfl, List.prefix_refl _,
    List.prefix_refl _, ExtendsAll.refl children⟩

theorem ExtendsAll.refl : ∀ bs : List (Builder V), ExtendsAll bs bs
  | [] => rfl
  | c :: cs => ⟨c, cs, rfl, Extends.refl c, ExtendsAll.refl cs⟩

end

mutual

theorem Extends.trans : ∀ {a b c : Builder V}, Extends a b → Extends b c → Extends a c
  | .leaf _, b, c, h, h' => by
    obtain ⟨_, rfl, hv⟩ := h
    obtain ⟨values, rfl, hv'⟩ := h'
    exact ⟨values, rfl, hv.trans hv'⟩
  | .list _ _ _, b, c, h, h' => by
    obtain ⟨_, _, _, rfl, ho, hv, hc⟩ := h
    obtain ⟨offsets, valid, child, rfl, ho', hv', hc'⟩ := h'
    exact ⟨offsets, valid, child, rfl, ho.trans ho', hv.trans hv', hc.trans hc'⟩
  | .fixedSizeList _ _, b, c, h, h' => by
    obtain ⟨_, _, rfl, hv, hc⟩ := h
    obtain ⟨valid, child, rfl, hv', hc'⟩ := h'
    exact ⟨valid, child, rfl, hv.trans hv', hc.trans hc'⟩
  | .map _ _ _ _, b, c, h, h' => by
    obtain ⟨_, _, _, _, rfl, ho, hv, hk, hi⟩ := h
    obtain ⟨offsets, valid, key, item, rfl, ho', hv', hk', hi'⟩ := h'
    exact ⟨offsets, valid, key, item, rfl, ho.trans ho', hv.trans hv', hk.trans hk', hi.trans hi'⟩
  | .struct _ _, b, c, h, h' => by
    obtain ⟨_, _, rfl, hv, hc⟩ := h
    obtain ⟨valid, children, rfl, hv', hc'⟩ := h'
    exact ⟨valid, children, rfl, hv.trans hv', hc.trans hc'⟩
  | .union _ _ _, b, c, h, h' => by
    obtain ⟨_, _, _, rfl, ht, ho, hc⟩ := h
    obtain ⟨types, offsets, children, rfl, ht', ho', hc'⟩ := h'
    exact ⟨types, offsets, children, rfl, ht.trans ht', ho.trans ho', hc.trans hc'⟩

theorem ExtendsAll.trans : ∀ {as bs cs : List (Builder V)},
    ExtendsAll as bs → ExtendsAll bs cs → ExtendsAll as cs
  | [], bs, cs, h, h' => by
    obtain rfl := h
    exact h'
  | _ :: _, bs, cs, h, h' => by
    obtain ⟨_, _, rfl, hb, hbs⟩ := h
    obtain ⟨c, rest, rfl, hc, hcs⟩ := h'
    exact ⟨c, rest, rfl, hb.trans hc, hbs.trans hcs⟩

end

/-! ## Lengths that fit together -/

/-- Offsets into a child of some length: from zero on, and up to the length. -/
def Ascending (offsets : List Nat) (length : Nat) : Prop :=
  (offsets ++ [length]).head? = some 0 ∧ (offsets ++ [length]).Pairwise (· ≤ ·)

/-- The child has grown, and its length before is one more offset. -/
theorem Ascending.append {offsets : List Nat} {n m : Nat} (h : Ascending offsets n) (hle : n ≤ m) :
    Ascending (offsets ++ [n]) m := by
  obtain ⟨hhead, hascending⟩ := h
  refine ⟨?_, List.pairwise_append.mpr ⟨hascending, List.pairwise_singleton _ _, ?_⟩⟩
  · rw [List.head?_append, hhead]
    rfl
  · intro x hx y hy
    rw [List.mem_singleton.mp hy]
    refine Nat.le_trans ?_ hle
    rcases List.mem_append.mp hx with hx | hx
    · exact (List.pairwise_append.mp hascending).2.2 x hx n (List.mem_singleton_self n)
    · exact Nat.le_of_eq (List.mem_singleton.mp hx)

section Fit

variable (child key item : Builder V → Prop) (children : List (Builder V → Prop))

def LeafOk : Builder V → Prop
  | .leaf _ => True
  | _ => False

def ListOk : Builder V → Prop
  | .list offsets valid c =>
    offsets.length = valid.length ∧ Ascending offsets c.length ∧ child c
  | _ => False

def FixedSizeListOk (listSize : Nat) : Builder V → Prop
  | .fixedSizeList valid c => c.length = listSize * valid.length ∧ child c
  | _ => False

def MapOk : Builder V → Prop
  | .map offsets valid k i =>
    offsets.length = valid.length ∧ Ascending offsets k.length ∧ i.length = k.length ∧
      key k ∧ item i
  | _ => False

def ChildrenOk (cs : List (Builder V)) : Prop := List.Forall₂ (fun ok c => ok c) children cs

def StructOk : Builder V → Prop
  | .struct valid cs => ChildrenOk children cs ∧ ∀ c ∈ cs, c.length = valid.length
  | _ => False

/-- Every slot of a dense union is one of the child of its type, at its offset. -/
def OffsetsOk (codes types offsets : List Nat) (cs : List (Builder V)) : Prop :=
  offsets.length = types.length ∧ ∀ x ∈ types.zip offsets, ∀ (k : Nat) (c : Builder V),
    codes[k]? = some x.1 → cs[k]? = some c → x.2 < c.length

/-- Every slot of a sparse union is one of every child. -/
def UnionOk (mode : UnionMode) (codes : List Nat) : Builder V → Prop
  | .union types offsets cs =>
    ChildrenOk children cs ∧ (∀ t ∈ types, t ∈ codes) ∧
    match mode with
    | .sparse => ∀ c ∈ cs, c.length = types.length
    | .dense => OffsetsOk codes types offsets cs
  | _ => False

end Fit

/-- One more slot of the `k`-th child. -/
theorem OffsetsOk.append {codes types offsets : List Nat} {cs : List (Builder V)}
    (h : OffsetsOk codes types offsets cs) (hnodup : codes.Nodup) {k code : Nat} {c c' : Builder V}
    (hcode : codes[k]? = some code) (hc : cs[k]? = some c) (hlength : c'.length = c.length + 1) :
    OffsetsOk codes (types ++ [code]) (offsets ++ [c.length]) (cs.set k c') := by
  obtain ⟨hsame, hoffsets⟩ := h
  have hk : k < cs.length := (List.getElem?_eq_some_iff.mp hc).1
  refine ⟨by rw [List.length_append, List.length_append, hsame]; rfl, ?_⟩
  intro x hx k' d hk' hd
  rw [List.zip_append hsame.symm] at hx
  by_cases heq : k' = k
  · obtain rfl := heq
    rw [List.getElem?_set_self hk] at hd
    obtain rfl := Option.some.inj hd
    rcases List.mem_append.mp hx with hx | hx
    · have hlt := hoffsets x hx k' c hk' hc
      omega
    · rw [List.zip_cons_cons, List.zip_nil_left, List.mem_singleton] at hx
      rw [hx, hlength]
      exact Nat.lt_succ_self _
  · rw [List.getElem?_set_ne (Ne.symm heq)] at hd
    rcases List.mem_append.mp hx with hx | hx
    · exact hoffsets x hx k' d hk' hd
    · rw [List.zip_cons_cons, List.zip_nil_left, List.mem_singleton] at hx
      rw [hx] at hk'
      obtain ⟨hlt, hget⟩ := List.getElem?_eq_some_iff.mp hk'
      obtain ⟨hlt', hget'⟩ := List.getElem?_eq_some_iff.mp hcode
      exact absurd (hnodup.getElem_inj_iff.mp (hget.trans hget'.symm)) heq

mutual

/-- The builder is one of the type, and all lengths fit together. -/
def NestedType.Ok : NestedType L → Builder V → Prop
  | .leaf _ => LeafOk
  | .list value => ListOk value.Ok
  | .fixedSizeList listSize value => FixedSizeListOk value.Ok listSize
  | .map key item => MapOk key.Ok item.Ok
  | .struct fields => StructOk (fieldsOk fields)
  | .union mode typeCodes fields => UnionOk (fieldsOk fields) mode typeCodes

def fieldsOk : List (String × NestedType L) → List (Builder V → Prop)
  | [] => []
  | (_, t) :: fields => t.Ok :: fieldsOk fields

end

mutual

/-- The children of every union are told apart by their codes, which have seven bits, and there is
one. -/
def NestedType.WellFormed : NestedType L → Prop
  | .leaf _ => True
  | .list value => value.WellFormed
  | .fixedSizeList _ value => value.WellFormed
  | .map key item => key.WellFormed ∧ item.WellFormed
  | .struct fields => fieldsWellFormed fields
  | .union _ typeCodes fields => typeCodes ≠ [] ∧ typeCodes.length = fields.length ∧
    typeCodes.Nodup ∧ (∀ c ∈ typeCodes, c ≤ 127) ∧ fieldsWellFormed fields

def fieldsWellFormed : List (String × NestedType L) → Prop
  | [] => True
  | (_, t) :: fields => t.WellFormed ∧ fieldsWellFormed fields

end

/-- One more slot, everything still fits together, and what was there is there. -/
structure Appends (ok : Builder V → Prop) (b b' : Builder V) : Prop where
  ok : ok b'
  length : b'.length = b.length + 1
  keeps : Extends b b'

mutual

/-- The builder that `Init` makes. -/
def newBuilder : NestedType L → Builder V
  | .leaf _ => .leaf []
  | .list value => .list [] [] (newBuilder value)
  | .fixedSizeList _ value => .fixedSizeList [] (newBuilder value)
  | .map key item => .map [] [] (newBuilder key) (newBuilder item)
  | .struct fields => .struct [] (newBuilders fields)
  | .union _ _ fields => .union [] [] (newBuilders fields)

def newBuilders : List (String × NestedType L) → List (Builder V)
  | [] => []
  | (_, t) :: fields => newBuilder t :: newBuilders fields

end

theorem newBuilder_length : ∀ t : NestedType L, (newBuilder t : Builder V).length = 0
  | .leaf _ | .list _ | .fixedSizeList _ _ | .map _ _ | .struct _ | .union _ _ _ => by
    rw [newBuilder]
    rfl

theorem newBuilders_length : ∀ fields : List (String × NestedType L),
    ∀ c ∈ (newBuilders fields : List (Builder V)), c.length = 0
  | [], c, hc => absurd hc List.not_mem_nil
  | (_, t) :: fields, c, hc => by
    rcases List.mem_cons.mp hc with rfl | hc
    · exact newBuilder_length t
    · exact newBuilders_length fields c hc

mutual

theorem newBuilder_ok : ∀ t : NestedType L, t.Ok (newBuilder t : Builder V)
  | .leaf _ => trivial
  | .list value => by
    refine ⟨rfl, ⟨?_, List.pairwise_singleton _ _⟩, newBuilder_ok value⟩
    rw [newBuilder_length]
    rfl
  | .fixedSizeList listSize value => ⟨newBuilder_length value, newBuilder_ok value⟩
  | .map key item => by
    refine ⟨rfl, ⟨?_, List.pairwise_singleton _ _⟩, ?_, newBuilder_ok key, newBuilder_ok item⟩
    · rw [newBuilder_length]
      rfl
    · rw [newBuilder_length, newBuilder_length]
  | .struct fields => ⟨newBuilders_ok fields, newBuilders_length fields⟩
  | .union mode typeCodes fields => by
    refine ⟨newBuilders_ok fields, fun t ht => absurd ht List.not_mem_nil, ?_⟩
    cases mode with
    | sparse => exact newBuilders_length fields
    | dense => exact ⟨rfl, fun x hx => absurd hx List.not_mem_nil⟩

theorem newBuilders_ok : ∀ fields : List (String × NestedType L),
    ChildrenOk (fieldsOk fields) (newBuilders fields : List (Builder V))
  | [] => .nil
  | (_, t) :: fields => .cons (newBuilder_ok t) (newBuilders_ok fields)

end

/-- What the parsers take from Arrow. -/
structure Arrow (L V : Type) where
  /-- `AppendNull` of the builder of a type. -/
  appendNull : NestedType L → Builder V → Builder V
  typeToString : NestedType L → String
  null_appends : ∀ t : NestedType L, t.WellFormed → ∀ b, t.Ok b → Appends t.Ok b (appendNull t b)

/-! ## The builders of Arrow

`AppendNull` and `AppendEmptyValue` as Arrow documents them. A struct appends empty values to its
children, a list of fixed size as many slots as it has, a sparse union a slot to its first child and
empty values to the others, a dense one a slot to its first child. -/

section Documented

variable [Inhabited V]

mutual

/-- `AppendEmptyValue`, or `AppendNull`. -/
def appendUnset : NestedType L → Bool → Builder V → Builder V
  | .leaf _, empty, .leaf values => .leaf (values ++ [if empty then some default else none])
  | .list _, empty, .list offsets valid child =>
    .list (offsets ++ [child.length]) (valid ++ [empty]) child
  | .fixedSizeList listSize value, empty, .fixedSizeList valid child =>
    .fixedSizeList (valid ++ [empty]) ((appendUnset value empty)^[listSize] child)
  | .map _ _, empty, .map offsets valid key item =>
    .map (offsets ++ [key.length]) (valid ++ [empty]) key item
  | .struct fields, empty, .struct valid children =>
    .struct (valid ++ [empty]) (appendEmptyFields fields children)
  | .union .sparse (code :: _) ((_, t) :: others), empty,
    .union types offsets (child :: children) =>
    .union (types ++ [code]) offsets
      (appendUnset t empty child :: appendEmptyFields others children)
  | .union .dense (code :: _) ((_, t) :: _), empty, .union types offsets (child :: children) =>
    .union (types ++ [code]) (offsets ++ [child.length]) (appendUnset t empty child :: children)
  | _, _, b => b

def appendEmptyFields : List (String × NestedType L) → List (Builder V) → List (Builder V)
  | (_, t) :: fields, c :: cs => appendUnset t true c :: appendEmptyFields fields cs
  | _, cs => cs

end

omit [Inhabited V] in
/-- Several slots in a row. -/
theorem appends_iterate {ok : Builder V → Prop} {f : Builder V → Builder V}
    (h : ∀ b, ok b → Appends ok b (f b)) (n : Nat) : ∀ b, ok b →
    ok (f^[n] b) ∧ (f^[n] b).length = b.length + n ∧ Extends b (f^[n] b) := by
  induction n with
  | zero => exact fun b hb => ⟨hb, rfl, Extends.refl b⟩
  | succ n ih =>
    intro b hb
    have hfirst := h b hb
    obtain ⟨hok, hlength, hkeeps⟩ := ih (f b) hfirst.ok
    rw [Function.iterate_succ_apply]
    exact ⟨hok, by rw [hlength, hfirst.length, Nat.add_assoc, Nat.add_comm 1],
      hfirst.keeps.trans hkeeps⟩

mutual

theorem appends_unset : ∀ (t : NestedType L), t.WellFormed → ∀ (empty : Bool) (b : Builder V),
    t.Ok b → Appends t.Ok b (appendUnset t empty b)
  | .leaf _, _, empty, b, hb => by
    cases b with
    | leaf values =>
      rw [appendUnset]
      exact ⟨hb, by simp [Builder.length], values ++ [_], rfl, List.prefix_append _ _⟩
    | _ => exact absurd hb id
  | .list value, _, empty, b, hb => by
    cases b with
    | list offsets valid child =>
      obtain ⟨hlength, hoffsets, hchild⟩ := hb
      rw [appendUnset]
      refine ⟨⟨?_, hoffsets.append (Nat.le_refl _), hchild⟩, ?_, _, _, _, rfl,
        List.prefix_append _ _, List.prefix_append _ _, Extends.refl child⟩
      · rw [List.length_append, List.length_append, hlength]
        rfl
      · rw [Builder.length, List.length_append]
        rfl
    | _ => exact absurd hb id
  | .fixedSizeList listSize value, hwf, empty, b, hb => by
    cases b with
    | fixedSizeList valid child =>
      obtain ⟨hlength, hchild⟩ := hb
      obtain ⟨hok, hgrown, hkeeps⟩ :=
        appends_iterate (appends_unset value hwf empty) listSize child hchild
      rw [appendUnset]
      refine ⟨⟨?_, hok⟩, ?_, _, _, rfl, List.prefix_append _ _, hkeeps⟩
      · rw [hgrown, hlength, List.length_append, List.length_singleton, Nat.mul_succ]
      · rw [Builder.length, List.length_append]
        rfl
    | _ => exact absurd hb id
  | .map key item, _, empty, b, hb => by
    cases b with
    | map offsets valid k i =>
      obtain ⟨hlength, hoffsets, hsame, hkey, hitem⟩ := hb
      rw [appendUnset]
      refine ⟨⟨?_, hoffsets.append (Nat.le_refl _), hsame, hkey, hitem⟩, ?_, _, _, _, _, rfl,
        List.prefix_append _ _, List.prefix_append _ _, Extends.refl k, Extends.refl i⟩
      · rw [List.length_append, List.length_append, hlength]
        rfl
      · rw [Builder.length, List.length_append]
        rfl
    | _ => exact absurd hb id
  | .struct fields, hwf, empty, b, hb => by
    cases b with
    | struct valid children =>
      obtain ⟨hchildren, hlengths⟩ := hb
      obtain ⟨hok, hgrown, hkeeps⟩ :=
        appends_emptyFields fields hwf children hchildren valid.length hlengths
      rw [appendUnset]
      refine ⟨⟨hok, ?_⟩, ?_, _, _, rfl, List.prefix_append _ _, hkeeps⟩
      · rw [List.length_append]
        exact hgrown
      · rw [Builder.length, List.length_append]
        rfl
    | _ => exact absurd hb id
  | .union mode typeCodes fields, hwf, empty, b, hb => by
    cases b with
    | union types offsets children =>
      obtain ⟨hne, hlength, hnodup, -, hfields⟩ := hwf
      obtain ⟨hchildren, htypes, hmode⟩ := hb
      cases typeCodes with
      | nil => exact absurd rfl hne
      | cons code codes =>
        cases fields with
        | nil => cases hlength
        | cons f others =>
          obtain ⟨name, t⟩ := f
          cases hchildren with
          | @cons _ child _ children hchild hrest =>
            have hfirst := appends_unset t hfields.1 empty child hchild
            have hmem : ∀ u ∈ types ++ [code], u ∈ code :: codes := by
              intro u hu
              rcases List.mem_append.mp hu with hu | hu
              · exact htypes u hu
              · rw [List.mem_singleton.mp hu]
                exact List.mem_cons_self
            cases mode with
            | sparse =>
              obtain ⟨hok, hgrown, hkeeps⟩ := appends_emptyFields others hfields.2 children hrest
                types.length fun c hc => hmode c (List.mem_cons_of_mem _ hc)
              rw [appendUnset]
              refine ⟨⟨.cons hfirst.ok hok, hmem, ?_⟩, ?_, _, _, _, rfl, List.prefix_append _ _,
                List.prefix_refl _, _, _, rfl, hfirst.keeps, hkeeps⟩
              · intro c hc
                rw [List.length_append]
                rcases List.mem_cons.mp hc with rfl | hc
                · rw [hfirst.length, hmode child List.mem_cons_self]
                  rfl
                · exact hgrown c hc
              · rw [Builder.length, List.length_append]
                rfl
            | dense =>
              have hoffsets := OffsetsOk.append hmode hnodup (k := 0) rfl rfl hfirst.length
              rw [appendUnset]
              refine ⟨⟨.cons hfirst.ok hrest, hmem, hoffsets⟩, ?_, _, _, _, rfl,
                List.prefix_append _ _, List.prefix_append _ _, _, _, rfl, hfirst.keeps,
                ExtendsAll.refl children⟩
              rw [Builder.length, List.length_append]
              rfl
    | _ => exact absurd hb id

theorem appends_emptyFields : ∀ (fields : List (String × NestedType L)),
    fieldsWellFormed fields → ∀ cs : List (Builder V), ChildrenOk (fieldsOk fields) cs →
    ∀ n, (∀ c ∈ cs, c.length = n) →
    ChildrenOk (fieldsOk fields) (appendEmptyFields fields cs) ∧
      (∀ c ∈ appendEmptyFields fields cs, c.length = n + 1) ∧
      ExtendsAll cs (appendEmptyFields fields cs)
  | [], _, cs, h, n, hn => by
    cases h with
    | nil =>
      have hempty : appendEmptyFields (V := V) ([] : List (String × NestedType L)) [] = [] := by
        simp [appendEmptyFields]
      rw [hempty]
      exact ⟨.nil, fun c hc => absurd hc List.not_mem_nil, rfl⟩
  | (_, t) :: fields, hwf, cs, h, n, hn => by
    cases h with
    | @cons _ c _ cs hc hcs =>
      have hfirst := appends_unset t hwf.1 true c hc
      obtain ⟨hok, hgrown, hkeeps⟩ := appends_emptyFields fields hwf.2 cs hcs n
        fun c' hc' => hn c' (List.mem_cons_of_mem _ hc')
      rw [appendEmptyFields]
      refine ⟨.cons hfirst.ok hok, ?_, _, _, rfl, hfirst.keeps, hkeeps⟩
      intro c' hc'
      rcases List.mem_cons.mp hc' with rfl | hc'
      · rw [hfirst.length, hn c List.mem_cons_self]
      · exact hgrown c' hc'

end

def documentedArrow (typeToString : NestedType L → String) : Arrow L V where
  appendNull t b := appendUnset t false b
  typeToString := typeToString
  null_appends t hwf b hb := appends_unset t hwf false b hb

end Documented

end Haybarn.Json
