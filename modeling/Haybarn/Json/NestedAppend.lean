import Haybarn.Json.NestedParsers

/-!
# What the parsers of nested types accept

The values of a type (`NestedType.values`): which ones fit, and in which ones the type ids of the
unions lie in the tables of their parsers. A parser is lawful for a type if it accepts the values
that fit and no others, one more slot for each, and everything still fits together; what was in the
builder is in it after an error, too (`Lawful`). Every constructor of a type makes a lawful parser
of lawful ones, so that all of them are (`nested_append`).

Not more than what was there can be said about an error: the slot of the parent may be appended
already, and elements before the one that failed (`rejected_value_leaves_parts`). An id outside of
the table is used all the same (`type_id_outside_of_the_table`).
-/

namespace Haybarn.Json

open Lib.JsonDoc

variable {L V : Type}

/-! ## Values of a type -/

structure Values where
  fits : Json → Prop
  /-- Every type id of a union lies in the table of the parser. -/
  indexed : Json → Prop

def leafValues (parse : Json → Except String V) : Values where
  fits
    | .null => True
    | v => ∃ x, parse v = .ok x
  indexed _ := True

def listValues (value : Values) : Values where
  fits
    | .null => True
    | .array vs => ∀ v ∈ vs, value.fits v
    | _ => False
  indexed
    | .array vs => ∀ v ∈ vs, value.indexed v
    | _ => True

def fixedSizeListValues (listSize : Nat) (value : Values) : Values where
  fits
    | .null => True
    | .array vs => vs.length = listSize ∧ ∀ v ∈ vs, value.fits v
    | _ => False
  indexed
    | .array vs => ∀ v ∈ vs, value.indexed v
    | _ => True

/-- A key, which is not null, and its item. -/
def pairValues (key item : Values) : Values where
  fits
    | .array [.null, _] => False
    | .array [k, w] => key.fits k ∧ item.fits w
    | _ => False
  indexed
    | .array [k, w] => key.indexed k ∧ item.indexed w
    | _ => True

def mapValues (key item : Values) : Values := listValues (pairValues key item)

/-- The values of the fields in order, or by name. A field whose name is missing is null. -/
def structValues (fields : List (String × Values)) : Values where
  fits
    | .null => True
    | .array vs => vs.length = fields.length ∧ ∀ x ∈ fields.zip vs, x.1.2.fits x.2
    | .object members => ∀ f ∈ fields, ∀ w, findMember f.1 members = some w → f.2.fits w
    | _ => False
  indexed
    | .array vs => ∀ x ∈ fields.zip vs, x.1.2.indexed x.2
    | .object members => ∀ f ∈ fields, ∀ w, findMember f.1 members = some w → f.2.indexed w
    | _ => True

/-- A type id, and a value of the child with that id. The table has entries from zero to the
largest of the ids. -/
def unionValues (typeCodes : List Nat) (children : List (String × Values)) : Values where
  fits
    | .null => True
    | .array [.number x, w] => isInt x = true ∧ ∃ (k code : Nat) (child : String × Values),
      typeCodes[k]? = some code ∧ x.value = code ∧ children[k]? = some child ∧ child.2.fits w
    | _ => False
  indexed
    | .array [.number x, w] => isInt x = true →
      (0 ≤ x.value ∧ ∃ code ∈ typeCodes, x.value ≤ code) ∧
      ∀ (k code : Nat) (child : String × Values), typeCodes[k]? = some code → x.value = code →
        children[k]? = some child → child.2.indexed w
    | _ => True

mutual

def NestedType.values (parse : L → Json → Except String V) : NestedType L → Values
  | .leaf l => leafValues (parse l)
  | .list value => listValues (value.values parse)
  | .fixedSizeList listSize value => fixedSizeListValues listSize (value.values parse)
  | .map key item => mapValues (key.values parse) (item.values parse)
  | .struct fields => structValues (fieldsValues parse fields)
  | .union _ typeCodes fields => unionValues typeCodes (fieldsValues parse fields)

def fieldsValues (parse : L → Json → Except String V) :
    List (String × NestedType L) → List (String × Values)
  | [] => []
  | (name, t) :: fields => (name, t.values parse) :: fieldsValues parse fields

end

/-! ## The outcome of an append -/

namespace Appended

variable {A B : Type}

/-- A success is one for a value that fits, an error one for a value that does not, and each leaves
a builder as it should be. -/
def Matches (fits : Prop) (good bad : B → Prop) : Appended B → Prop
  | .ok b => fits ∧ good b
  | .error _ b => ¬fits ∧ bad b
  | .undefined => False

theorem Matches.build {fits : Prop} {good bad : A → Prop} {good' bad' : B → Prop} {f g : A → B}
    {r : Appended A} (h : r.Matches fits good bad) (hgood : ∀ a, good a → good' (f a))
    (hbad : ∀ a, bad a → bad' (g a)) : (r.build f g).Matches fits good' bad' := by
  cases r with
  | ok a => exact ⟨h.1, hgood a h.2⟩
  | error message a => exact ⟨h.1, hbad a h.2⟩
  | undefined => exact h

/-- One append, and another one: the value fits if both of its parts do. -/
theorem Matches.andThen {fits fits' : Prop} {good bad good' bad' : A → Prop} {r : Appended A}
    {next : A → Appended A} (h : r.Matches fits good bad) (hbad : ∀ a, bad a → bad' a)
    (hnext : ∀ a, good a → (next a).Matches fits' good' bad') :
    (r.andThen next).Matches (fits ∧ fits') good' bad' := by
  cases r with
  | ok a =>
    have hrest := hnext a h.2
    rw [Appended.andThen]
    cases hsecond : next a with
    | ok b =>
      rw [hsecond] at hrest
      exact ⟨⟨h.1, hrest.1⟩, hrest.2⟩
    | error message b =>
      rw [hsecond] at hrest
      exact ⟨fun hfits => hrest.1 hfits.2, hrest.2⟩
    | undefined =>
      rw [hsecond] at hrest
      exact hrest
  | error message a => exact ⟨fun hfits => h.1 hfits.1, hbad a h.2⟩
  | undefined => exact h

theorem Matches.imp {fits : Prop} {good bad good' bad' : A → Prop} {r : Appended A}
    (h : r.Matches fits good bad) (hgood : ∀ a, good a → good' a) (hbad : ∀ a, bad a → bad' a) :
    r.Matches fits good' bad' := by
  cases r with
  | ok a => exact ⟨h.1, hgood a h.2⟩
  | error message a => exact ⟨h.1, hbad a h.2⟩
  | undefined => exact h

theorem Matches.congr {fits fits' : Prop} {good bad : A → Prop} {r : Appended A}
    (h : r.Matches fits good bad) (hiff : fits ↔ fits') : r.Matches fits' good bad := by
  cases r with
  | ok a => exact ⟨hiff.mp h.1, h.2⟩
  | error message a => exact ⟨fun hfits => h.1 (hiff.mpr hfits), h.2⟩
  | undefined => exact h

end Appended

open Appended (Matches)

/-- The parser accepts the values that fit, and everything still fits together. -/
structure Lawful (p : Parser V) (ok : Builder V → Prop) (vals : Values) : Prop where
  append : ∀ b, ok b → ∀ v, vals.indexed v →
    (p.appendValue v b).Matches (vals.fits v) (Appends ok b) (Extends b)
  null : ∀ b, ok b → Appends ok b (p.appendNull b)

/-- Null is handled first and always fits. -/
theorem Lawful.orNull {ok : Builder V → Prop} {vals : Values} {appendNull : Builder V → Builder V}
    {appendValue : Json → Builder V → Appended (Builder V)}
    (hnull : ∀ b, ok b → Appends ok b (appendNull b)) (hfits : vals.fits .null)
    (happend : ∀ b, ok b → ∀ v, v ≠ .null → vals.indexed v →
      (appendValue v b).Matches (vals.fits v) (Appends ok b) (Extends b)) :
    Lawful (.orNull appendNull appendValue) ok vals where
  append b hb v hv := by
    cases v with
    | null => exact ⟨hfits, hnull b hb⟩
    | bool x => exact happend b hb _ (by simp) hv
    | number x => exact happend b hb _ (by simp) hv
    | string x => exact happend b hb _ (by simp) hv
    | array vs => exact happend b hb _ (by simp) hv
    | object members => exact happend b hb _ (by simp) hv
  null := hnull

/-! ## One lemma for each parser -/

section

variable {p key item : Parser V} {ok okKey okItem : Builder V → Prop} {vals keys items : Values}
  {appendNull : Builder V → Builder V}

theorem leafParser_lawful {parse : Json → Except String V}
    (hnull : ∀ b, LeafOk b → Appends LeafOk b (appendNull b)) :
    Lawful (leafParser appendNull parse) LeafOk (leafValues parse) := by
  refine Lawful.orNull hnull trivial ?_
  intro b hb v hv _
  cases b with
  | leaf values =>
    have hfits : (leafValues parse).fits v ↔ ∃ x, parse v = .ok x := by
      cases v with
      | null => exact absurd rfl hv
      | _ => exact Iff.rfl
    dsimp only
    cases hparse : parse v with
    | ok x =>
      refine ⟨hfits.mpr ⟨x, hparse⟩, trivial, ?_, values ++ [some x], rfl,
        List.prefix_append _ _⟩
      rw [Builder.length, List.length_append]
      rfl
    | error message =>
      refine ⟨fun h => ?_, Extends.refl _⟩
      obtain ⟨x, hx⟩ := hfits.mp h
      rw [hparse] at hx
      cases hx
  | _ => exact absurd hb id

/-- The elements of an array. What holds of one append holds of all of them. -/
theorem appendEach_matches {A : Type} {append : Json → A → Appended A} {fits indexed : Json → Prop}
    {good : A → Prop} {keeps : A → A → Prop} (length : A → Nat) (hrefl : ∀ a, keeps a a)
    (htrans : ∀ a b c, keeps a b → keeps b c → keeps a c)
    (happend : ∀ a, good a → ∀ v, indexed v → (append v a).Matches (fits v)
      (fun a' => good a' ∧ length a' = length a + 1 ∧ keeps a a') (keeps a)) :
    ∀ (vs : List Json) (a : A), good a → (∀ v ∈ vs, indexed v) →
    (appendEach append vs a).Matches (∀ v ∈ vs, fits v)
      (fun a' => good a' ∧ length a' = length a + vs.length ∧ keeps a a') (keeps a)
  | [], a, ha, _ => ⟨fun v hv => absurd hv List.not_mem_nil, ha, rfl, hrefl a⟩
  | v :: vs, a, ha, hindexed => by
    rw [appendEach]
    refine ((happend a ha v (hindexed v List.mem_cons_self)).andThen (fun a' h => h) ?_).congr
      List.forall_mem_cons.symm
    intro b hb
    obtain ⟨hgood, hlength, hkeeps⟩ := hb
    have hrest := appendEach_matches length hrefl htrans happend vs b hgood
      fun w hw => hindexed w (List.mem_cons_of_mem v hw)
    cases hcase : appendEach append vs b with
    | ok c =>
      rw [hcase] at hrest
      obtain ⟨hfits, hgood', hlength', hkeeps'⟩ := hrest
      refine ⟨hfits, hgood', ?_, htrans a b c hkeeps hkeeps'⟩
      rw [hlength', hlength, List.length_cons]
      omega
    | error message c =>
      rw [hcase] at hrest
      exact ⟨hrest.1, htrans a b c hkeeps hrest.2⟩
    | undefined =>
      rw [hcase] at hrest
      exact hrest

theorem Lawful.appendEach (hp : Lawful p ok vals) (vs : List Json) (b : Builder V) (hb : ok b)
    (hindexed : ∀ v ∈ vs, vals.indexed v) :
    (appendEach p.appendValue vs b).Matches (∀ v ∈ vs, vals.fits v)
      (fun b' => ok b' ∧ b'.length = b.length + vs.length ∧ Extends b b') (Extends b) := by
  refine appendEach_matches Builder.length Extends.refl (fun _ _ _ => Extends.trans) ?_ vs b hb
    hindexed
  intro c hc v hv
  exact (hp.append c hc v hv).imp (fun c' hc' => ⟨hc'.ok, hc'.length, hc'.keeps⟩) fun c' h => h

theorem listArrayParser_lawful (hp : Lawful p ok vals)
    (hnull : ∀ b, ListOk ok b → Appends (ListOk ok) b (appendNull b)) :
    Lawful (listArrayParser appendNull p) (ListOk ok) (listValues vals) := by
  refine Lawful.orNull hnull trivial ?_
  intro b hb v hv hindexed
  cases b with
  | list offsets valid c =>
    obtain ⟨hlength, hoffsets, hchild⟩ := hb
    cases v with
    | null => exact absurd rfl hv
    | array vs =>
      refine (hp.appendEach vs c hchild hindexed).build ?_ ?_
      · intro c' hc'
        obtain ⟨hok, hgrown, hkeeps⟩ := hc'
        refine ⟨⟨?_, hoffsets.append (by omega), hok⟩, ?_, _, _, _, rfl, List.prefix_append _ _,
          List.prefix_append _ _, hkeeps⟩
        · rw [List.length_append, List.length_append, hlength]
          rfl
        · rw [Builder.length, List.length_append]
          rfl
      · intro c' hkeeps
        exact ⟨_, _, _, rfl, List.prefix_append _ _, List.prefix_append _ _, hkeeps⟩
    | _ =>
      exact ⟨id, _, _, _, rfl, List.prefix_append _ _, List.prefix_append _ _, Extends.refl c⟩
  | _ => exact absurd hb id

theorem fixedSizeListArrayParser_lawful (hp : Lawful p ok vals) (listSize : Nat)
    (hnull : ∀ b, FixedSizeListOk ok listSize b →
      Appends (FixedSizeListOk ok listSize) b (appendNull b)) :
    Lawful (fixedSizeListArrayParser appendNull listSize p) (FixedSizeListOk ok listSize)
      (fixedSizeListValues listSize vals) := by
  refine Lawful.orNull hnull trivial ?_
  intro b hb v hv hindexed
  cases b with
  | fixedSizeList valid c =>
    obtain ⟨hlength, hchild⟩ := hb
    cases v with
    | null => exact absurd rfl hv
    | array vs =>
      -- the size is compared when all elements are appended
      have hsize : ∀ c', (ok c' ∧ c'.length = c.length + vs.length ∧ Extends c c') →
          Matches (vs.length = listSize)
            (fun d => ok d ∧ d.length = c.length + listSize ∧ Extends c d) (Extends c)
            (if vs.length ≠ listSize then
              .error ("incorrect list size " ++ toString vs.length) c' else .ok c') := by
        intro c' hc'
        obtain ⟨hok, hgrown, hkeeps⟩ := hc'
        split
        next hne => exact ⟨hne, hkeeps⟩
        next heq =>
          have heq := of_not_not heq
          exact ⟨heq, hok, heq ▸ hgrown, hkeeps⟩
      refine (((hp.appendEach vs c hchild hindexed).andThen (fun c' h => h) hsize).congr
        And.comm).build ?_ ?_
      · intro c' hc'
        obtain ⟨hok, hgrown, hkeeps⟩ := hc'
        refine ⟨⟨?_, hok⟩, ?_, _, _, rfl, List.prefix_append _ _, hkeeps⟩
        · rw [hgrown, hlength, List.length_append, List.length_singleton, Nat.mul_succ]
        · rw [Builder.length, List.length_append]
          rfl
      · intro c' hkeeps
        exact ⟨_, _, rfl, List.prefix_append _ _, hkeeps⟩
    | _ => exact ⟨id, _, _, rfl, List.prefix_append _ _, Extends.refl c⟩
  | _ => exact absurd hb id

/-- What has to hold of the builders of the keys and of the items. -/
def PairOk (okKey okItem : Builder V → Prop) (s : Builder V × Builder V) : Prop :=
  okKey s.1 ∧ okItem s.2 ∧ s.2.length = s.1.length

def PairExtends (s s' : Builder V × Builder V) : Prop := Extends s.1 s'.1 ∧ Extends s.2 s'.2

theorem PairExtends.refl (s : Builder V × Builder V) : PairExtends s s :=
  ⟨Extends.refl s.1, Extends.refl s.2⟩

/-- A key without its item stays when the item does not fit. -/
theorem appendPair_matches (hkey : Lawful key okKey keys) (hitem : Lawful item okItem items)
    (s : Builder V × Builder V) (hs : PairOk okKey okItem s) (v : Json)
    (hindexed : (pairValues keys items).indexed v) :
    (appendPair key item v s).Matches ((pairValues keys items).fits v)
      (fun s' => PairOk okKey okItem s' ∧ s'.1.length = s.1.length + 1 ∧ PairExtends s s')
      (PairExtends s) := by
  obtain ⟨hk, hi, hsame⟩ := hs
  have hboth : ∀ k w, keys.indexed k → items.indexed w →
      (((key.appendValue k s.1).map fun b => (b, s.2)).andThen fun s =>
        (item.appendValue w s.2).map fun b => (s.1, b)).Matches (keys.fits k ∧ items.fits w)
      (fun s' => PairOk okKey okItem s' ∧ s'.1.length = s.1.length + 1 ∧ PairExtends s s')
      (PairExtends s) := by
    intro k w hkindexed hwindexed
    have hfirst : ((key.appendValue k s.1).map fun b => (b, s.2)).Matches (keys.fits k)
        (fun s' => Appends okKey s.1 s'.1 ∧ s'.2 = s.2) (PairExtends s) :=
      (hkey.append s.1 hk k hkindexed).build (fun b hb => ⟨hb, rfl⟩)
        fun b hb => ⟨hb, Extends.refl s.2⟩
    refine hfirst.andThen (fun s' h => h) ?_
    intro s' hs'
    obtain ⟨hgrown, heq⟩ := hs'
    rw [heq]
    refine (hitem.append s.2 hi w hwindexed).build ?_ fun b hb => ⟨hgrown.keeps, hb⟩
    intro b hb
    refine ⟨⟨hgrown.ok, hb.ok, ?_⟩, hgrown.length, hgrown.keeps, hb.keeps⟩
    show b.length = s'.1.length
    rw [hb.length, hgrown.length, hsame]
  cases v with
  | array vs =>
    cases vs with
    | nil => exact ⟨id, PairExtends.refl s⟩
    | cons k vs =>
      cases vs with
      | nil => exact ⟨by simp [pairValues], by simpa [appendPair] using PairExtends.refl s⟩
      | cons w vs =>
        cases vs with
        | cons x vs =>
          exact ⟨by simp [pairValues], by simpa [appendPair] using PairExtends.refl s⟩
        | nil =>
          cases k with
          | null => exact ⟨id, PairExtends.refl s⟩
          | _ => exact hboth _ w hindexed.1 hindexed.2
  | _ => exact ⟨id, PairExtends.refl s⟩

theorem mapArrayParser_lawful (hkey : Lawful key okKey keys) (hitem : Lawful item okItem items)
    (hnull : ∀ b, MapOk okKey okItem b → Appends (MapOk okKey okItem) b (appendNull b)) :
    Lawful (mapArrayParser appendNull key item) (MapOk okKey okItem) (mapValues keys items) := by
  refine Lawful.orNull hnull trivial ?_
  intro b hb v hv hindexed
  cases b with
  | map offsets valid k i =>
    obtain ⟨hlength, hoffsets, hsame, hk, hi⟩ := hb
    have hbuild : ∀ s', PairExtends (k, i) s' →
        Extends (.map offsets valid k i)
          (.map (offsets ++ [k.length]) (valid ++ [true]) s'.1 s'.2) :=
      fun s' hkeeps => ⟨_, _, _, _, rfl, List.prefix_append _ _, List.prefix_append _ _, hkeeps.1,
        hkeeps.2⟩
    cases v with
    | null => exact absurd rfl hv
    | array vs =>
      refine (appendEach_matches (fun s : Builder V × Builder V => s.1.length) PairExtends.refl
        (fun _ _ _ h h' => ⟨h.1.trans h'.1, h.2.trans h'.2⟩)
        (appendPair_matches hkey hitem) vs (k, i) ⟨hk, hi, hsame⟩ hindexed).build ?_ hbuild
      intro s' hs'
      obtain ⟨⟨hk', hi', hsame'⟩, hgrown, hkeeps⟩ := hs'
      refine ⟨⟨?_, hoffsets.append ?_, hsame', hk', hi'⟩, ?_, hbuild s' hkeeps⟩
      · rw [List.length_append, List.length_append, hlength]
        rfl
      · exact hgrown ▸ Nat.le_add_right _ _
      · rw [Builder.length, List.length_append]
        rfl
    | _ => exact ⟨id, hbuild (k, i) (PairExtends.refl _)⟩
  | _ => exact absurd hb id

end

/-! ## Structs -/

/-- Parsers, and what is known of each. -/
inductive LawfulFields :
    List (String × Parser V) → List (Builder V → Prop) → List (String × Values) → Prop
  | nil : LawfulFields [] [] []
  | cons {name : String} {p : Parser V} {ok : Builder V → Prop} {vals : Values} {ps oks valss}
    (h : Lawful p ok vals) (hrest : LawfulFields ps oks valss) :
    LawfulFields ((name, p) :: ps) (ok :: oks) ((name, vals) :: valss)

/-- Appends to builders, what has to hold of these, and when the appended values fit. -/
inductive MatchingAppends :
    List (Builder V → Appended (Builder V)) → List (Builder V → Prop) → List Prop → Prop
  | nil : MatchingAppends [] [] []
  | cons {append : Builder V → Appended (Builder V)} {ok : Builder V → Prop} {fits : Prop}
    {appends oks fitss}
    (h : ∀ c, ok c → (append c).Matches fits (Appends ok c) (Extends c))
    (hrest : MatchingAppends appends oks fitss) :
    MatchingAppends (append :: appends) (ok :: oks) (fits :: fitss)

/-- One append for every child, in order. When one fails, the children before it have grown. -/
theorem appendToEach_matches {appends : List (Builder V → Appended (Builder V))}
    {oks : List (Builder V → Prop)} {fitss : List Prop} (h : MatchingAppends appends oks fitss) :
    ∀ cs, ChildrenOk oks cs → ∀ n, (∀ c ∈ cs, c.length = n) →
    (appendToEach appends cs).Matches (∀ q ∈ fitss, q)
      (fun cs' => ChildrenOk oks cs' ∧ (∀ c ∈ cs', c.length = n + 1) ∧ ExtendsAll cs cs')
      (ExtendsAll cs) := by
  induction h with
  | nil =>
    intro cs hcs n _
    cases hcs with
    | nil =>
      exact ⟨fun q hq => absurd hq List.not_mem_nil, .nil, fun c hc => absurd hc List.not_mem_nil,
        rfl⟩
  | @cons append ok fits appends oks fitss happend _ ih =>
    intro cs hcs n hn
    cases hcs with
    | @cons _ c _ cs hc hcs =>
      have hfirst := happend c hc
      rw [appendToEach]
      cases hcase : append c with
      | ok c' =>
        rw [hcase] at hfirst
        obtain ⟨hfits, hgrown⟩ := hfirst
        have hrest := ih cs hcs n fun d hd => hn d (List.mem_cons_of_mem c hd)
        refine (hrest.congr ?_).build ?_ fun ds hds => ⟨_, _, rfl, hgrown.keeps, hds⟩
        · exact ⟨fun h => List.forall_mem_cons.mpr ⟨hfits, h⟩,
            fun h => (List.forall_mem_cons.mp h).2⟩
        · intro ds hds
          obtain ⟨hok, hlengths, hkeeps⟩ := hds
          refine ⟨.cons hgrown.ok hok, ?_, _, _, rfl, hgrown.keeps, hkeeps⟩
          intro d hd
          rcases List.mem_cons.mp hd with rfl | hd
          · rw [hgrown.length, hn c List.mem_cons_self]
          · exact hlengths d hd
      | error message c' =>
        rw [hcase] at hfirst
        exact ⟨fun h => hfirst.1 (List.forall_mem_cons.mp h).1, _, _, rfl, hfirst.2,
          ExtendsAll.refl cs⟩
      | undefined =>
        rw [hcase] at hfirst
        exact hfirst

section

variable {ps : List (String × Parser V)} {oks : List (Builder V → Prop)}
  {fields : List (String × Values)}

theorem LawfulFields.length_eq (h : LawfulFields ps oks fields) : ps.length = fields.length := by
  induction h with
  | nil => rfl
  | cons _ _ ih => rw [List.length_cons, List.length_cons, ih]

/-- The appends of the elements of an array. -/
theorem LawfulFields.elements (h : LawfulFields ps oks fields) : ∀ vs : List Json,
    vs.length = fields.length → (∀ x ∈ fields.zip vs, x.1.2.indexed x.2) →
    MatchingAppends (List.zipWith (fun f w => f.2.appendValue w) ps vs) oks
      ((fields.zip vs).map fun x => x.1.2.fits x.2) := by
  induction h with
  | nil =>
    intro vs hlength _
    obtain rfl := List.length_eq_zero_iff.mp hlength
    exact .nil
  | @cons name p ok vals ps oks fields hp _ ih =>
    intro vs hlength hindexed
    cases vs with
    | nil => cases hlength
    | cons v vs =>
      have hall := List.forall_mem_cons.mp hindexed
      exact .cons (fun c hc => hp.append c hc v hall.1) (ih vs (Nat.succ.inj hlength) hall.2)

theorem annotateField_matches {field : String} {r : Appended (Builder V)} {fits : Prop}
    {good bad : Builder V → Prop} (h : r.Matches fits good bad) :
    (annotateField field r).Matches fits good bad := by
  cases r with
  | _ => exact h

/-- The appends of the members of an object. -/
theorem LawfulFields.members (h : LawfulFields ps oks fields) (members : List (String × Json)) :
    (∀ f ∈ fields, ∀ w, findMember f.1 members = some w → f.2.indexed w) →
    MatchingAppends (ps.map (appendMember members)) oks
      (fields.map fun f => ∀ w, findMember f.1 members = some w → f.2.fits w) := by
  induction h with
  | nil => exact fun _ => .nil
  | @cons name p ok vals ps oks fields hp _ ih =>
    intro hindexed
    have hall := List.forall_mem_cons.mp hindexed
    refine .cons ?_ (ih hall.2)
    intro c hc
    refine annotateField_matches ?_
    dsimp only
    cases hfind : findMember name members with
    | some w =>
      refine (hp.append c hc w (hall.1 w hfind)).congr ?_
      exact ⟨fun h w' hw' => Option.some.inj hw' ▸ h, fun h => h w rfl⟩
    | none => exact ⟨fun w hw => absurd hw (by simp), hp.null c hc⟩

theorem structArrayParser_lawful {appendNull : Builder V → Builder V}
    (h : LawfulFields ps oks fields)
    (hnull : ∀ b, StructOk oks b → Appends (StructOk oks) b (appendNull b)) :
    Lawful (structArrayParser appendNull ps) (StructOk oks) (structValues fields) := by
  refine Lawful.orNull hnull trivial ?_
  intro b hb v hv hindexed
  cases b with
  | struct valid cs =>
    obtain ⟨hcs, hlengths⟩ := hb
    -- the slot of the struct comes last
    have hslot : ∀ {appends fitss}, MatchingAppends appends oks fitss →
        ((appendToEach appends cs).build (.struct (valid ++ [true])) (.struct valid)).Matches
          (∀ q ∈ fitss, q) (Appends (StructOk oks) (.struct valid cs))
          (Extends (.struct valid cs)) := by
      intro appends fitss happends
      refine (appendToEach_matches happends cs hcs valid.length hlengths).build ?_
        fun cs' h => ⟨_, _, rfl, List.prefix_refl _, h⟩
      intro cs' hcs'
      obtain ⟨hok, hgrown, hkeeps⟩ := hcs'
      refine ⟨⟨hok, ?_⟩, ?_, _, _, rfl, List.prefix_append _ _, hkeeps⟩
      · rw [List.length_append]
        exact hgrown
      · rw [Builder.length, List.length_append]
        rfl
    cases v with
    | null => exact absurd rfl hv
    | array vs =>
      dsimp only
      split
      next hne => exact ⟨fun hfits => hne (hfits.1.trans h.length_eq.symm), Extends.refl _⟩
      next heq =>
        have hsize := (of_not_not heq).trans h.length_eq
        refine (hslot (h.elements vs hsize hindexed)).congr ?_
        rw [List.forall_mem_map]
        exact ⟨fun hall => ⟨hsize, hall⟩, fun hfits => hfits.2⟩
    | object members =>
      refine (hslot (h.members members hindexed)).congr ?_
      rw [List.forall_mem_map]
      exact Iff.rfl
    | _ => exact ⟨id, Extends.refl _⟩
  | _ => exact absurd hb id

end

/-! ## Unions -/

/-- The entries that have been set are in the table, and nothing else. -/
theorem table_foldl : ∀ (entries : List (Nat × Nat)) (table : List (Option Nat)),
    (entries.map Prod.fst).Nodup → (∀ e ∈ entries, e.1 < table.length) → ∀ i < table.length,
    ∀ k, (entries.foldl (fun table c => table.set c.1 (some c.2)) table)[i]? = some (some k) ↔
      (i, k) ∈ entries ∨ table[i]? = some (some k) ∧ i ∉ entries.map Prod.fst
  | [], table, _, _, i, _, k => by simp
  | (c, j) :: entries, table, hnodup, hbound, i, hi, k => by
    obtain ⟨hfresh, hnodup⟩ := List.nodup_cons.mp hnodup
    have hc : c < table.length := hbound (c, j) List.mem_cons_self
    have ih := table_foldl entries (table.set c (some j)) hnodup
      (fun e he => by rw [List.length_set]; exact hbound e (List.mem_cons_of_mem _ he)) i
      (by rw [List.length_set]; exact hi) k
    rw [List.foldl_cons, ih, List.mem_cons, List.map_cons, List.mem_cons]
    by_cases heq : c = i
    · subst heq
      rw [List.getElem?_set_self hc]
      constructor
      · intro h
        rcases h with hmem | ⟨hset, -⟩
        · exact .inl (.inr hmem)
        · exact .inl (.inl (by rw [Option.some.inj (Option.some.inj hset)]))
      · intro h
        rcases h with (hsame | hmem) | ⟨-, hnot⟩
        · cases hsame
          exact .inr ⟨rfl, hfresh⟩
        · exact .inl hmem
        · exact absurd (.inl rfl) hnot
    · rw [List.getElem?_set_ne heq]
      constructor
      · intro h
        rcases h with hmem | ⟨hset, hnot⟩
        · exact .inl (.inr hmem)
        · exact .inr ⟨hset, fun h => h.elim (fun h => heq h.symm) hnot⟩
      · intro h
        rcases h with (hsame | hmem) | ⟨hset, hnot⟩
        · cases hsame
          exact absurd rfl heq
        · exact .inl hmem
        · exact .inr ⟨hset, fun h => hnot (.inr h)⟩

theorem table_foldl_length : ∀ (entries : List (Nat × Nat)) (table : List (Option Nat)),
    (entries.foldl (fun table c => table.set c.1 (some c.2)) table).length = table.length
  | [], _ => rfl
  | c :: entries, table => by
    rw [List.foldl_cons, table_foldl_length, List.length_set]

/-- The table has an entry for every code up to the largest one. -/
theorem lt_tableSize_iff (typeCodes : List Nat) (i : Nat) :
    i < (typeIdToChildNum typeCodes).length ↔ ∃ code ∈ typeCodes, i ≤ code := by
  rw [typeIdToChildNum, table_foldl_length, List.length_replicate]
  induction typeCodes with
  | nil => simp
  | cons code typeCodes ih =>
    rw [List.foldr_cons, lt_max_iff, ih, List.exists_mem_cons_iff, Nat.lt_succ_iff]

/-- An id within the table has the position of its code, if there is one. -/
theorem childNum_of_indexed {typeCodes : List Nat} (hnodup : typeCodes.Nodup) {id : Nat}
    (hid : ∃ code ∈ typeCodes, id ≤ code) :
    ∃ num, childNum typeCodes id = some num ∧ ∀ k, num = some k ↔ typeCodes[k]? = some id := by
  have hlt := (lt_tableSize_iff typeCodes id).mpr hid
  refine ⟨(typeIdToChildNum typeCodes)[id], ?_, ?_⟩
  · rw [childNum, if_neg (by omega), Int.toNat_natCast]
    exact List.getElem?_eq_getElem hlt
  · intro k
    have hcodes : typeCodes.zipIdx.map Prod.fst = typeCodes := List.zipIdx_map_fst 0 typeCodes
    have hbound : ∀ e ∈ typeCodes.zipIdx, e.1 < (typeIdToChildNum typeCodes).length := by
      intro e he
      have hmem : e.1 ∈ typeCodes := hcodes ▸ List.mem_map_of_mem he
      exact (lt_tableSize_iff typeCodes e.1).mpr ⟨e.1, hmem, Nat.le_refl _⟩
    rw [typeIdToChildNum, table_foldl_length] at hbound
    have hsize := hlt
    rw [typeIdToChildNum, table_foldl_length] at hsize
    have htable := table_foldl typeCodes.zipIdx _ (hcodes.symm ▸ hnodup) hbound id hsize k
    have hempty : (List.replicate (typeCodes.foldr (fun c size => max (c + 1) size) 0)
        (none : Option Nat))[id]? ≠ some (some k) := by
      rw [List.getElem?_replicate]
      split <;> simp
    rw [List.mk_mem_zipIdx_iff_getElem?] at htable
    rw [← Option.some_inj, ← List.getElem?_eq_getElem hlt, typeIdToChildNum, htable]
    exact ⟨fun h => h.resolve_right fun h => hempty h.1, .inl⟩

theorem ChildrenOk.get {oks : List (Builder V → Prop)} {cs : List (Builder V)}
    (h : ChildrenOk oks cs) {k : Nat} {ok : Builder V → Prop} (hk : oks[k]? = some ok) :
    ∃ c, cs[k]? = some c ∧ ok c := by
  induction h generalizing k with
  | nil => cases hk
  | @cons _ c _ cs hc _ ih =>
    cases k with
    | zero =>
      obtain rfl := Option.some.inj hk
      exact ⟨c, rfl, hc⟩
    | succ k => exact ih hk

theorem ChildrenOk.set {oks : List (Builder V → Prop)} {cs : List (Builder V)}
    (h : ChildrenOk oks cs) {k : Nat} {ok : Builder V → Prop} (hk : oks[k]? = some ok)
    {c' : Builder V} (hc' : ok c') : ChildrenOk oks (cs.set k c') := by
  induction h generalizing k with
  | nil => cases hk
  | @cons _ c _ cs hc hcs ih =>
    cases k with
    | zero =>
      obtain rfl := Option.some.inj hk
      exact .cons hc' hcs
    | succ k => exact .cons hc (ih hk)

theorem ExtendsAll.set : ∀ {cs ds : List (Builder V)} {k : Nat} {c d : Builder V},
    ExtendsAll cs ds → cs[k]? = some c → Extends c d → ExtendsAll cs (ds.set k d)
  | [], _, _, _, _, _, hk, _ => by cases hk
  | _ :: _, ds, k, c, d, h, hk, hd => by
    obtain ⟨c', ds', rfl, hc', hds⟩ := h
    cases k with
    | zero =>
      obtain rfl := Option.some.inj hk
      exact ⟨d, ds', rfl, hd, hds⟩
    | succ k => exact ⟨c', ds'.set k d, rfl, hc', hds.set hk hd⟩

section

variable {ps : List (String × Parser V)} {oks : List (Builder V → Prop)}
  {fields : List (String × Values)}

theorem LawfulFields.get (h : LawfulFields ps oks fields) {k : Nat} (hk : k < fields.length) :
    ∃ p ok f, (ps.map Prod.snd)[k]? = some p ∧ oks[k]? = some ok ∧ fields[k]? = some f ∧
      Lawful p ok f.2 := by
  induction h generalizing k with
  | nil => exact absurd hk (Nat.not_lt_zero k)
  | @cons name p ok vals ps oks fields hp _ ih =>
    cases k with
    | zero => exact ⟨p, ok, (name, vals), rfl, rfl, rfl, hp⟩
    | succ k => exact ih (Nat.lt_of_succ_lt_succ hk)

/-- The other children of a sparse union get a null. -/
theorem LawfulFields.others (h : LawfulFields ps oks fields) : ∀ (k : Option Nat)
    (cs : List (Builder V)), ChildrenOk oks cs → ∀ n, (∀ c ∈ cs, c.length = n) →
    ChildrenOk oks (appendNullToOthers k (ps.map Prod.snd) cs) ∧
      ExtendsAll cs (appendNullToOthers k (ps.map Prod.snd) cs) ∧
      ∀ i c', (appendNullToOthers k (ps.map Prod.snd) cs)[i]? = some c' →
        if k = some i then cs[i]? = some c' else c'.length = n + 1 := by
  induction h with
  | nil =>
    intro k cs hcs n _
    cases hcs with
    | nil =>
      have hempty :
          appendNullToOthers k (([] : List (String × Parser V)).map Prod.snd) [] = [] := by
        simp [appendNullToOthers]
      rw [hempty]
      exact ⟨.nil, rfl, fun i c' hc' => by cases hc'⟩
  | @cons name p ok vals ps oks fields hp _ ih =>
    intro k cs hcs n hn
    cases hcs with
    | @cons _ c _ cs hc hcs =>
      have hrest := fun k => ih k cs hcs n fun d hd => hn d (List.mem_cons_of_mem c hd)
      have hnull := hp.null c hc
      have hlength : (p.appendNull c).length = n + 1 := by
        rw [hnull.length, hn c List.mem_cons_self]
      cases k with
      | none =>
        obtain ⟨hok, hkeeps, hlengths⟩ := hrest none
        rw [List.map_cons, appendNullToOthers]
        refine ⟨.cons hnull.ok hok, ⟨_, _, rfl, hnull.keeps, hkeeps⟩, ?_⟩
        intro i c' hc'
        cases i with
        | zero =>
          obtain rfl := Option.some.inj hc'
          exact hlength
        | succ i => exact hlengths i c' hc'
      | some k =>
        cases k with
        | zero =>
          -- behind the child, every other one gets a null
          obtain ⟨hok, hkeeps, hlengths⟩ := hrest none
          rw [List.map_cons, appendNullToOthers]
          refine ⟨.cons hc hok, ⟨_, _, rfl, Extends.refl c, hkeeps⟩, ?_⟩
          intro i c' hc'
          cases i with
          | zero => exact hc'
          | succ i => exact hlengths i c' hc'
        | succ k =>
          obtain ⟨hok, hkeeps, hlengths⟩ := hrest (some k)
          rw [List.map_cons, appendNullToOthers]
          refine ⟨.cons hnull.ok hok, ⟨_, _, rfl, hnull.keeps, hkeeps⟩, ?_⟩
          intro i c' hc'
          cases i with
          | zero =>
            obtain rfl := Option.some.inj hc'
            exact hlength
          | succ i =>
            have hrest := hlengths i c' hc'
            by_cases heq : k = i
            · subst heq
              rw [if_pos rfl] at hrest ⊢
              exact hrest
            · rw [if_neg (by simpa using heq)] at hrest ⊢
              exact hrest

/-- Only the builder of the child changes. -/
theorem appendToChild_matches {ps : List (Parser V)} {k : Nat} {p : Parser V}
    {ok : Builder V → Prop} {vals : Values} (hp : Lawful p ok vals) (hk : ps[k]? = some p)
    {cs : List (Builder V)} {c : Builder V} (hc : cs[k]? = some c) (hok : ok c) {w : Json}
    (hindexed : vals.indexed w) :
    (appendToChild ps k w cs).Matches (vals.fits w)
      (fun cs' => ∃ c', cs' = cs.set k c' ∧ Appends ok c c')
      (fun cs' => ∃ c', cs' = cs.set k c' ∧ Extends c c') := by
  rw [appendToChild, hk, hc]
  exact (hp.append c hok w hindexed).build (fun c' h => ⟨c', rfl, h⟩) fun c' h => ⟨c', rfl, h⟩

/-- A slot of a union, when the id has a child: the type and the offset are the slot's, and the
builder of the child takes the value. -/
theorem appendSlot_matches (h : LawfulFields ps oks fields) {mode : UnionMode}
    {typeCodes : List Nat} (hnodup : typeCodes.Nodup) {types offsets : List Nat}
    {cs : List (Builder V)}
    (hb : UnionOk oks mode typeCodes (.union types offsets cs)) {k id : Nat}
    (hcode : typeCodes[k]? = some id) {p : Parser V} {ok : Builder V → Prop}
    {f : String × Values} (hpk : (ps.map Prod.snd)[k]? = some p) (hok : oks[k]? = some ok)
    (hp : Lawful p ok f.2) {w : Json} (hindexed : f.2.indexed w) :
    Matches (f.2.fits w) (Appends (UnionOk oks mode typeCodes) (.union types offsets cs))
      (Extends (.union types offsets cs))
      (appendSlot mode (ps.map Prod.snd) k id w types offsets cs) := by
  obtain ⟨hcs, htypes, hmode⟩ := hb
  have hmem : ∀ t ∈ types ++ [id], t ∈ typeCodes := by
    intro t ht
    rcases List.mem_append.mp ht with ht | ht
    · exact htypes t ht
    · rw [List.mem_singleton.mp ht]
      exact List.mem_of_getElem? hcode
  obtain ⟨c, hc, hcok⟩ := hcs.get hok
  cases mode with
  | sparse =>
    obtain ⟨hcs', hkeeps, hothers⟩ := h.others (some k) cs hcs types.length hmode
    obtain ⟨c', hc', hcok'⟩ := hcs'.get hok
    obtain rfl : c' = c := by
      have hsame := hothers k c' hc'
      rw [if_pos rfl, hc] at hsame
      exact (Option.some.inj hsame).symm
    refine (appendToChild_matches hp hpk hc' hcok' hindexed).build ?_ ?_
    · intro ds hds
      obtain ⟨d, rfl, hd⟩ := hds
      refine ⟨⟨hcs'.set hok hd.ok, hmem, ?_⟩, ?_, _, _, _, rfl, List.prefix_append _ _,
        List.prefix_refl _, hkeeps.set hc hd.keeps⟩
      · intro e he
        obtain ⟨i, hi⟩ := List.getElem?_of_mem he
        rw [List.length_append, List.length_singleton]
        by_cases heq : k = i
        · subst heq
          have hlt := (List.getElem?_eq_some_iff.mp hc').1
          rw [List.getElem?_set_self hlt] at hi
          obtain rfl := Option.some.inj hi
          rw [hd.length, hmode c' (List.mem_of_getElem? hc)]
        · rw [List.getElem?_set_ne heq] at hi
          have hlength := hothers i e hi
          rw [if_neg (fun h => heq (Option.some.inj h))] at hlength
          exact hlength
      · rw [Builder.length, List.length_append]
        rfl
    · intro ds hds
      obtain ⟨d, rfl, hd⟩ := hds
      exact ⟨_, _, _, rfl, List.prefix_append _ _, List.prefix_refl _, hkeeps.set hc hd⟩
  | dense =>
    rw [appendSlot, hc]
    have hself := ExtendsAll.refl cs
    refine (appendToChild_matches hp hpk hc hcok hindexed).build ?_ ?_
    · intro ds hds
      obtain ⟨d, rfl, hd⟩ := hds
      refine ⟨⟨hcs.set hok hd.ok, hmem, OffsetsOk.append hmode hnodup hcode hc hd.length⟩, ?_, _, _,
        _, rfl, List.prefix_append _ _, List.prefix_append _ _, hself.set hc hd.keeps⟩
      rw [Builder.length, List.length_append]
      rfl
    · intro ds hds
      obtain ⟨d, rfl, hd⟩ := hds
      exact ⟨_, _, _, rfl, List.prefix_append _ _, List.prefix_append _ _, hself.set hc hd⟩

/-- An id within the table: it is the code of a child, or an error. -/
theorem appendTyped_matches (h : LawfulFields ps oks fields) {mode : UnionMode}
    {typeCodes : List Nat} {typeName : String} (hlength : typeCodes.length = ps.length)
    (hnodup : typeCodes.Nodup) {types offsets : List Nat} {cs : List (Builder V)}
    (hb : UnionOk oks mode typeCodes (.union types offsets cs)) {id : Nat}
    (hid : ∃ code ∈ typeCodes, id ≤ code) {w : Json}
    (hindexed : ∀ (k : Nat) (child : String × Values), typeCodes[k]? = some id →
      fields[k]? = some child → child.2.indexed w) :
    (appendTyped mode typeCodes typeName (ps.map Prod.snd) id w types offsets cs).Matches
      (∃ (k : Nat) (child : String × Values), typeCodes[k]? = some id ∧
        fields[k]? = some child ∧ child.2.fits w)
      (Appends (UnionOk oks mode typeCodes) (.union types offsets cs))
      (Extends (.union types offsets cs)) := by
  obtain ⟨num, hnum, hposition⟩ := childNum_of_indexed hnodup hid
  rw [appendTyped, hnum]
  cases num with
  | none =>
    refine ⟨fun hfits => ?_, Extends.refl _⟩
    obtain ⟨k, child, hk, -⟩ := hfits
    cases (hposition k).mpr hk
  | some k =>
    have hk := (hposition k).mp rfl
    have hlt : k < fields.length := by
      rw [← h.length_eq, ← hlength]
      exact (List.getElem?_eq_some_iff.mp hk).1
    obtain ⟨p, ok, f, hpk, hok, hf, hp⟩ := h.get hlt
    refine (appendSlot_matches h hnodup hb hk hpk hok hp (hindexed k f hk hf)).congr ?_
    constructor
    · exact fun hfits => ⟨k, f, hk, hf, hfits⟩
    · intro hfits
      obtain ⟨k', child, hk', hchild, hfits⟩ := hfits
      -- the codes are different, so this is the child
      obtain rfl := Option.some.inj ((hposition k').mpr hk')
      rw [hf] at hchild
      exact Option.some.inj hchild ▸ hfits

theorem unionArrayParser_lawful {appendNull : Builder V → Builder V} {mode : UnionMode}
    {typeCodes : List Nat} {typeName : String} (h : LawfulFields ps oks fields)
    (hlength : typeCodes.length = ps.length) (hnodup : typeCodes.Nodup)
    (hseven : ∀ c ∈ typeCodes, c ≤ 127)
    (hnull : ∀ b, UnionOk oks mode typeCodes b →
      Appends (UnionOk oks mode typeCodes) b (appendNull b)) :
    Lawful (unionArrayParser appendNull mode typeCodes typeName (ps.map Prod.snd))
      (UnionOk oks mode typeCodes) (unionValues typeCodes fields) := by
  refine Lawful.orNull hnull trivial ?_
  intro b hb v hv hindexed
  cases b with
  | union types offsets cs =>
    cases v with
    | null => exact absurd rfl hv
    | array vs =>
      cases vs with
      | nil => exact ⟨id, Extends.refl _⟩
      | cons first vs =>
        cases vs with
        | nil => exact ⟨by simp [unionValues], Extends.refl _⟩
        | cons w vs =>
          cases vs with
          | cons x vs => exact ⟨by simp [unionValues], Extends.refl _⟩
          | nil =>
            cases first with
            | number x =>
              dsimp only
              split
              next hint => exact ⟨fun hfits => by simp [hfits.1] at hint, Extends.refl _⟩
              next hint =>
                have hint : isInt x = true := by simpa using hint
                obtain ⟨⟨hlow, code, hcode, hhigh⟩, hindexed⟩ := hindexed hint
                obtain ⟨id, hid⟩ := Int.eq_ofNat_of_zero_le hlow
                have hsmall := hseven code hcode
                -- seven bits stay
                have hcut : x.value.bmod (2 ^ 8) = id := by
                  rw [hid]
                  exact Int.bmod_eq_of_le (by omega) (by omega)
                rw [hcut]
                refine (appendTyped_matches h hlength hnodup hb ⟨code, hcode, by omega⟩
                  fun k child hk => hindexed k id child hk hid).congr ?_
                constructor
                · intro hfits
                  obtain ⟨k, child, hk, hchild, hfits⟩ := hfits
                  exact ⟨hint, k, id, child, hk, hid, hchild, hfits⟩
                · intro hfits
                  obtain ⟨-, k, code', child, hk, hvalue, hchild, hfits⟩ := hfits
                  obtain rfl : code' = id := by omega
                  exact ⟨k, child, hk, hchild, hfits⟩
            | _ => exact ⟨id, Extends.refl _⟩
    | _ => exact ⟨id, Extends.refl _⟩
  | _ => exact absurd hb id

end

/-! ## All types -/

variable (arrow : Arrow L V) (parse : L → Json → Except String V)

theorem resolveFields_length (fields : List (String × NestedType L)) :
    (resolveFields arrow parse fields).length = fields.length := by
  induction fields with
  | nil => rfl
  | cons f fields ih =>
    obtain ⟨name, t⟩ := f
    exact congrArg Nat.succ ih

mutual

/-- The induction is on the type: every constructor has its lemma. -/
theorem resolve_lawful : ∀ t : NestedType L, t.WellFormed →
    Lawful (resolve arrow parse t) t.Ok (t.values parse)
  | .leaf l, hwf => leafParser_lawful (arrow.null_appends (.leaf l) hwf)
  | .list value, hwf =>
    listArrayParser_lawful (resolve_lawful value hwf) (arrow.null_appends (.list value) hwf)
  | .fixedSizeList listSize value, hwf =>
    fixedSizeListArrayParser_lawful (resolve_lawful value hwf) listSize
      (arrow.null_appends (.fixedSizeList listSize value) hwf)
  | .map key item, hwf =>
    mapArrayParser_lawful (resolve_lawful key hwf.1) (resolve_lawful item hwf.2)
      (arrow.null_appends (.map key item) hwf)
  | .struct fields, hwf =>
    structArrayParser_lawful (resolveFields_lawful fields hwf)
      (arrow.null_appends (.struct fields) hwf)
  | .union mode typeCodes fields, hwf => by
    obtain ⟨-, hlength, hnodup, hseven, hfields⟩ := id hwf
    refine unionArrayParser_lawful (resolveFields_lawful fields hfields) ?_ hnodup hseven
      (arrow.null_appends (.union mode typeCodes fields) hwf)
    rw [hlength, resolveFields_length]

theorem resolveFields_lawful : ∀ fields : List (String × NestedType L), fieldsWellFormed fields →
    LawfulFields (resolveFields arrow parse fields) (fieldsOk fields) (fieldsValues parse fields)
  | [], _ => .nil
  | (_, t) :: fields, hwf => .cons (resolve_lawful t hwf.1) (resolveFields_lawful fields hwf.2)

end

/-- **The parser of a nested type uses no type id outside of its table, accepts the values that
fit, one slot for each with all lengths fitting together, and reports an error for every other
one; what was in the builders is in them either way.** -/
theorem nested_append (t : NestedType L) (hwf : t.WellFormed) (b : Builder V) (hb : t.Ok b)
    (v : Json) (hindexed : (t.values parse).indexed v) :
    ((resolve arrow parse t).appendValue v b).Matches ((t.values parse).fits v) (Appends t.Ok b)
      (Extends b) :=
  (resolve_lawful arrow parse t hwf).append b hb v hindexed

instance : Inhabited Cell := ⟨.bool false⟩

private def booleans : Arrow Unit Cell := documentedArrow fun _ => "boolean"

/-- A list of flags and points. -/
private def flagsOrPoints : NestedType Unit :=
  .list (.union .dense [0, 5] [("flag", .leaf ()), ("point", .struct [("x", .leaf ())])])

/-- `[[5, {"x": true}], null]` -/
private def onePoint : Json :=
  .array [.array [.number (.integer false 5), .object [("x", .bool true)]], .null]

theorem nested_append_point :
    ((resolve booleans (fun _ => parseBoolean) flagsOrPoints).appendValue onePoint
      (newBuilder flagsOrPoints)).Matches
        ((flagsOrPoints.values fun _ => parseBoolean).fits onePoint)
        (Appends flagsOrPoints.Ok (newBuilder flagsOrPoints))
        (Extends (newBuilder flagsOrPoints)) := by
  refine nested_append booleans (fun _ => parseBoolean) flagsOrPoints ?_ _
    (newBuilder_ok flagsOrPoints) onePoint ?_
  · exact ⟨by simp, rfl, by decide, by decide, trivial, ⟨trivial, trivial⟩, trivial⟩
  · intro v hv
    rcases List.mem_cons.mp hv with rfl | hv
    · refine fun _ => ⟨⟨by decide, 5, by decide, by decide⟩, ?_⟩
      intro k code child hk hcode hchild
      cases k with
      | zero =>
        obtain rfl := Option.some.inj hk
        cases hcode
      | succ k =>
        cases k with
        | zero =>
          obtain rfl := Option.some.inj hchild
          intro f hf w hw
          rw [List.mem_singleton.mp hf]
          trivial
        | succ k => cases hk
    · rw [List.mem_singleton.mp hv]
      trivial

/-- The second element does not fit: the slot of the list and its first element stay. -/
theorem rejected_value_leaves_parts : ∃ message b,
    (resolve booleans (fun _ => parseBoolean) (.list (.leaf ()))).appendValue
      (.array [.bool true, .string "x"]) (newBuilder (.list (.leaf ()))) = .error message b ∧
    b = .list [0] [true] (.leaf [some (.bool true)]) ∧
    newBuilder (.list (.leaf ()) : NestedType Unit) = (.list [] [] (.leaf []) : Builder Cell) :=
  ⟨_, _, rfl, rfl, rfl⟩

/-- A column: all its values, one after another, from the builder that `Init` makes. -/
theorem column_appended (t : NestedType L) (hwf : t.WellFormed) (vs : List Json)
    (hindexed : ∀ v ∈ vs, (t.values parse).indexed v) :
    (appendEach (resolve arrow parse t).appendValue vs (newBuilder t)).Matches
      (∀ v ∈ vs, (t.values parse).fits v) (fun b => t.Ok b ∧ b.length = vs.length)
      (Extends (newBuilder t)) := by
  have hall := (resolve_lawful arrow parse t hwf).appendEach vs (newBuilder t) (newBuilder_ok t)
    hindexed
  rw [newBuilder_length, Nat.zero_add] at hall
  exact hall.imp (fun b hb => ⟨hb.1, hb.2.1⟩) fun b hb => hb

private def flags : NestedType Unit := .list (.leaf ())

theorem column_appended_flags :
    (appendEach (resolve booleans (fun _ => parseBoolean) flags).appendValue
      [.array [.bool true], .null] (newBuilder flags)).Matches
        (∀ v ∈ [.array [.bool true], .null], (flags.values fun _ => parseBoolean).fits v)
        (fun b => flags.Ok b ∧ b.length = 2) (Extends (newBuilder flags)) :=
  column_appended booleans (fun _ => parseBoolean) flags trivial _ <| by
    rintro v (_ | ⟨_, _ | ⟨_, ⟨⟩⟩⟩)
    · exact fun _ _ => trivial
    · trivial

/-- An id that lies outside of the table is used all the same. -/
theorem type_id_outside_of_the_table (mode : UnionMode) (typeCodes : List Nat) (typeName : String)
    (children : List (Parser V)) {id : Int} (hid : id < 0 ∨ ∀ code ∈ typeCodes, (code : Int) < id)
    (w : Json) (types offsets : List Nat) (cs : List (Builder V)) :
    appendTyped mode typeCodes typeName children id w types offsets cs = .undefined := by
  have hnone : childNum typeCodes id = none := by
    rw [childNum]
    split
    next => rfl
    next hlow =>
      have hhigh := hid.resolve_left hlow
      refine List.getElem?_eq_none (Nat.le_of_not_lt fun hlt => ?_)
      obtain ⟨code, hcode, hle⟩ := (lt_tableSize_iff typeCodes id.toNat).mp hlt
      have hless := hhigh code hcode
      omega
  rw [appendTyped, hnone]

end Haybarn.Json
