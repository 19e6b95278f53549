import Mathlib

/-!
# JSON documents, their events, and building documents from events

A document as a tree (`Json`), the events a streaming parser reports for it (`events`), and a
builder that puts a tree together from events on a stack (`build`), which is how a parser with
a handler makes documents. Building the events of a value pushes the value (`build_events`). What
a parser has reported of an object when it stops early is some whole members, and one that is not
finished (`prefix_object`).

A number is kept as its literal; a parser reports an integer as the narrowest of four kinds,
where only a minus sign makes it one of the signed ones (`Number.kind`).
-/

namespace Haybarn.Lib.JsonDoc

/-- A number of the text: an integer literal with its sign and its magnitude, or a literal with
a fraction or an exponent. -/
inductive Number
  | integer (minus : Bool) (n : Nat)
  | real (text : String)
  deriving DecidableEq, Repr

/-- How a number is reported. -/
inductive Kind
  | int
  | int64
  | uint
  | uint64
  | double
  deriving DecidableEq, Repr

/-- The kind of a number. An integer that does not fit 64 bits is a double. -/
def Number.kind : Number → Kind
  | .integer true n => if n ≤ 2 ^ 31 then .int else if n ≤ 2 ^ 63 then .int64 else .double
  | .integer false n => if n < 2 ^ 32 then .uint else if n < 2 ^ 64 then .uint64 else .double
  | .real _ => .double

/-- The integer that an integer literal denotes. -/
def Number.value : Number → Int
  | .integer true n => -n
  | .integer false n => n
  | .real _ => 0

inductive Json
  | null
  | bool (b : Bool)
  | number (x : Number)
  | string (s : String)
  | array (elements : List Json)
  | object (members : List (String × Json))

/-- What a streaming parser reports. The ends of objects and arrays come with the number of
members and elements. -/
inductive Event
  | null
  | bool (b : Bool)
  | number (x : Number)
  | string (s : String)
  | startObject
  | key (s : String)
  | endObject (count : Nat)
  | startArray
  | endArray (count : Nat)
  deriving DecidableEq, Repr

mutual

/-- The events of a value, in the order of the text. -/
def events : Json → List Event
  | .null => [.null]
  | .bool b => [.bool b]
  | .number x => [.number x]
  | .string s => [.string s]
  | .array elements => .startArray :: elementEvents elements ++ [.endArray elements.length]
  | .object members => .startObject :: memberEvents members ++ [.endObject members.length]

def elementEvents : List Json → List Event
  | [] => []
  | v :: rest => events v ++ elementEvents rest

def memberEvents : List (String × Json) → List Event
  | [] => []
  | (k, v) :: rest => .key k :: events v ++ memberEvents rest

end

/-- The value is an object or an array. -/
def Json.isContainer : Json → Bool
  | .array _ => true
  | .object _ => true
  | _ => false

/-! ## Nesting -/

/-- The nesting depth behind an event. -/
def depthBehind (d : Nat) : Event → Nat
  | .startObject => d + 1
  | .startArray => d + 1
  | .endObject _ => d - 1
  | .endArray _ => d - 1
  | _ => d

/-- The depth behind every one of some events is at least `m`. -/
def Above (m : Nat) : Nat → List Event → Prop
  | _, [] => True
  | d, e :: es => m ≤ depthBehind d e ∧ Above m (depthBehind d e) es

theorem above_append {m : Nat} (es fs : List Event) : ∀ d : Nat,
    Above m d (es ++ fs) ↔ Above m d es ∧ Above m (es.foldl depthBehind d) fs := by
  induction es with
  | nil => exact fun d => ⟨fun h => ⟨trivial, h⟩, fun h => h.2⟩
  | cons e es ih =>
    intro d
    rw [List.cons_append, List.foldl_cons, Above, Above, ih, and_assoc]

/-- One event between two depths, for the ends of the induction. -/
theorem above_bracketed {m d : Nat} {start stop : Event} {inner : List Event} (hd : m ≤ d)
    (hstart : depthBehind d start = d + 1) (hstop : depthBehind (d + 1) stop = d)
    (hinner : Above m (d + 1) inner ∧ inner.foldl depthBehind (d + 1) = d + 1) :
    Above m d (start :: inner ++ [stop]) ∧ (start :: inner ++ [stop]).foldl depthBehind d = d := by
  have hback : (start :: inner).foldl depthBehind d = d + 1 := by
    rw [List.foldl_cons, hstart, hinner.2]
  constructor
  · refine (above_append _ _ d).mpr ⟨⟨by rw [hstart]; omega, by rw [hstart]; exact hinner.1⟩, ?_⟩
    rw [hback]
    exact ⟨by rw [hstop]; exact hd, trivial⟩
  · rw [List.foldl_append, hback]
    exact hstop

mutual

/-- **The events of a value stay at its depth or below it, and come back to it.** -/
theorem above_events {m : Nat} : ∀ (v : Json) {d : Nat}, m ≤ d →
    Above m d (events v) ∧ (events v).foldl depthBehind d = d
  | .null, _, hd => by rw [events]; exact ⟨⟨hd, trivial⟩, rfl⟩
  | .bool _, _, hd => by rw [events]; exact ⟨⟨hd, trivial⟩, rfl⟩
  | .number _, _, hd => by rw [events]; exact ⟨⟨hd, trivial⟩, rfl⟩
  | .string _, _, hd => by rw [events]; exact ⟨⟨hd, trivial⟩, rfl⟩
  | .array elements, d, hd => by
    rw [events]
    exact above_bracketed hd rfl rfl (above_elementEvents elements (Nat.le_succ_of_le hd))
  | .object members, d, hd => by
    rw [events]
    exact above_bracketed hd rfl rfl (above_memberEvents members (Nat.le_succ_of_le hd))

theorem above_elementEvents {m : Nat} : ∀ (vs : List Json) {d : Nat}, m ≤ d →
    Above m d (elementEvents vs) ∧ (elementEvents vs).foldl depthBehind d = d
  | [], _, _ => ⟨trivial, rfl⟩
  | v :: rest, d, hd => by
    obtain ⟨hv, hback⟩ := above_events v hd
    obtain ⟨hrest, hend⟩ := above_elementEvents rest hd
    rw [elementEvents, above_append, List.foldl_append, hback]
    exact ⟨⟨hv, hrest⟩, hend⟩

theorem above_memberEvents {m : Nat} : ∀ (members : List (String × Json)) {d : Nat}, m ≤ d →
    Above m d (memberEvents members) ∧ (memberEvents members).foldl depthBehind d = d
  | [], _, _ => ⟨trivial, rfl⟩
  | (k, v) :: rest, d, hd => by
    obtain ⟨hv, hback⟩ := above_events v hd
    obtain ⟨hrest, hend⟩ := above_memberEvents rest hd
    rw [memberEvents, List.cons_append, List.foldl_cons, List.foldl_append]
    show (m ≤ d ∧ Above m d (events v ++ memberEvents rest)) ∧ _
    rw [above_append, show depthBehind d (.key k) = d from rfl, hback]
    exact ⟨⟨hd, hv, hrest⟩, hend⟩

end

/-! ## Building -/

/-- A list of keys and values in turn. -/
def pairs : List Json → List (String × Json)
  | .string k :: v :: rest => (k, v) :: pairs rest
  | _ => []

/-- Replace the top of the stack. -/
def replaceTop (v : Json) : List Json → List Json
  | [] => []
  | _ :: rest => v :: rest

/-- A stack of values takes an event. The start of an object or an array pushes a placeholder,
its end replaces the placeholder and what has been pushed since. -/
def build (stack : List Json) : Event → List Json
  | .null => .null :: stack
  | .bool b => .bool b :: stack
  | .number x => .number x :: stack
  | .string s => .string s :: stack
  | .key k => .string k :: stack
  | .startObject => .object [] :: stack
  | .startArray => .object [] :: stack
  | .endObject count =>
    replaceTop (.object (pairs (stack.take (2 * count)).reverse)) (stack.drop (2 * count))
  | .endArray count => replaceTop (.array (stack.take count).reverse) (stack.drop count)

/-- The members of an object as they are pushed. -/
def memberValues : List (String × Json) → List Json
  | [] => []
  | (k, v) :: rest => .string k :: v :: memberValues rest

theorem length_memberValues : ∀ members, (memberValues members).length = 2 * members.length
  | [] => rfl
  | (k, v) :: rest => by
    have ih := length_memberValues rest
    simp only [memberValues, List.length_cons, ih]
    omega

theorem pairs_memberValues : ∀ members, pairs (memberValues members) = members
  | [] => rfl
  | (k, v) :: rest => by rw [memberValues, pairs, pairs_memberValues rest]

/-- Taking off what was pushed. -/
theorem take_push (vs stack : List Json) {n : Nat} (h : vs.length = n) :
    (vs.reverse ++ stack).take n = vs.reverse ∧ (vs.reverse ++ stack).drop n = stack := by
  have hlen : vs.reverse.length = n := by rw [List.length_reverse]; exact h
  exact ⟨List.take_left' hlen, List.drop_left' hlen⟩

mutual

/-- **Building the events of a value pushes the value.** -/
theorem build_events (stack : List Json) : ∀ v, (events v).foldl build stack = v :: stack
  | .null => by rw [events]; rfl
  | .bool b => by rw [events]; rfl
  | .number x => by rw [events]; rfl
  | .string s => by rw [events]; rfl
  | .array elements => by
    rw [events, List.cons_append, List.foldl_cons, List.foldl_append,
      build_elementEvents _ elements, List.foldl_cons, List.foldl_nil, build, build]
    obtain ⟨htake, hdrop⟩ := take_push elements (.object [] :: stack) rfl
    rw [htake, hdrop, List.reverse_reverse]
    rfl
  | .object members => by
    rw [events, List.cons_append, List.foldl_cons, List.foldl_append,
      build_memberEvents _ members, List.foldl_cons, List.foldl_nil, build, build]
    obtain ⟨htake, hdrop⟩ := take_push (memberValues members) (.object [] :: stack)
      (length_memberValues members)
    rw [htake, hdrop, List.reverse_reverse, pairs_memberValues]
    rfl

theorem build_elementEvents (stack : List Json) :
    ∀ vs, (elementEvents vs).foldl build stack = vs.reverse ++ stack
  | [] => rfl
  | v :: rest => by
    rw [elementEvents, List.foldl_append, build_events, build_elementEvents _ rest,
      List.reverse_cons, List.append_assoc]
    rfl

theorem build_memberEvents (stack : List Json) :
    ∀ members, (memberEvents members).foldl build stack = (memberValues members).reverse ++ stack
  | [] => rfl
  | (k, v) :: rest => by
    rw [memberEvents, List.cons_append, List.foldl_cons, List.foldl_append, build_events,
      build_memberEvents _ rest, memberValues, List.reverse_cons, List.reverse_cons,
      List.append_assoc, List.append_assoc]
    rfl

end

/-! ## Beginnings -/

/-- A beginning of a list that is made of two. -/
theorem prefix_append_cases {α : Type} {es xs ys : List α} (h : es <+: xs ++ ys) :
    (es <+: xs ∧ es ≠ xs) ∨ ∃ rest, es = xs ++ rest ∧ rest <+: ys := by
  rcases List.prefix_or_prefix_of_prefix h (List.prefix_append xs ys) with hshort | ⟨rest, rfl⟩
  · by_cases heq : es = xs
    · exact .inr ⟨[], by rw [heq, List.append_nil], List.nil_prefix⟩
    · exact .inl ⟨hshort, heq⟩
  · exact .inr ⟨rest, rfl, (List.prefix_append_right_inj xs).mp h⟩

/-- What is taken of a member that is not taken whole. -/
inductive Unfinished : List Event → Prop
  | nothing : Unfinished []
  | key (k : String) : Unfinished [.key k]
  | array (k : String) (vs : List Json) (inner : List Event) (h : inner <+: elementEvents vs) :
    Unfinished (.key k :: .startArray :: inner)
  | object (k : String) (inner : List Event) : Unfinished (.key k :: .startObject :: inner)

/-- A beginning of a value. -/
theorem unfinished_member (k : String) (v : Json) {es : List Event} (h : es <+: events v)
    (hne : es ≠ events v) : Unfinished (.key k :: es) := by
  have hscalar : ∀ e, events v = [e] → es = [] := by
    intro e he
    rw [he] at h hne
    rcases List.prefix_cons_iff.mp h with hnil | ⟨t, rfl, ht⟩
    · exact hnil
    · rw [List.prefix_nil.mp ht] at hne
      exact absurd rfl hne
  cases v with
  | null => rw [hscalar .null (by rw [events])]; exact .key k
  | bool b => rw [hscalar (.bool b) (by rw [events])]; exact .key k
  | number x => rw [hscalar (.number x) (by rw [events])]; exact .key k
  | string s => rw [hscalar (.string s) (by rw [events])]; exact .key k
  | array vs =>
    rw [events, List.cons_append] at h hne
    rcases List.prefix_cons_iff.mp h with rfl | ⟨inner, rfl, hinner⟩
    · exact .key k
    · rcases prefix_append_cases hinner with ⟨hshort, -⟩ | ⟨rest, rfl, hrest⟩
      · exact .array k vs inner hshort
      · rcases List.prefix_cons_iff.mp hrest with rfl | ⟨t, rfl, ht⟩
        · exact .array k vs _ (by rw [List.append_nil])
        · rw [List.prefix_nil.mp ht] at hne
          exact absurd rfl hne
  | object members =>
    rw [events, List.cons_append] at h
    rcases List.prefix_cons_iff.mp h with rfl | ⟨inner, rfl, -⟩
    · exact .key k
    · exact .object k inner

/-- **A beginning of the events of some members** is made of whole members, and of one that is
not finished. -/
theorem prefix_memberEvents : ∀ (members : List (String × Json)) {es : List Event},
    es <+: memberEvents members →
    ∃ pre rest, es = memberEvents pre ++ rest ∧ Unfinished rest
  | [], es, h => ⟨[], [], List.prefix_nil.mp h, .nothing⟩
  | (k, v) :: members, es, h => by
    rw [memberEvents, List.cons_append] at h
    rcases List.prefix_cons_iff.mp h with rfl | ⟨t, rfl, ht⟩
    · exact ⟨[], [], rfl, .nothing⟩
    · rcases prefix_append_cases ht with ⟨hshort, hne⟩ | ⟨rest, rfl, hrest⟩
      · exact ⟨[], .key k :: t, rfl, unfinished_member k v hshort hne⟩
      · obtain ⟨pre, last, rfl, hlast⟩ := prefix_memberEvents members hrest
        refine ⟨(k, v) :: pre, last, ?_, hlast⟩
        rw [memberEvents, List.cons_append, List.cons_append, List.append_assoc]

/-- A beginning of a document that starts with an object. -/
theorem prefix_object {v : Json} {es : List Event} (h : .startObject :: es <+: events v)
    (hne : .startObject :: es ≠ events v) :
    ∃ pre rest, es = memberEvents pre ++ rest ∧ Unfinished rest := by
  cases v with
  | object members =>
    rw [events, List.cons_append] at h hne
    obtain ⟨-, hes⟩ := List.cons_prefix_cons.mp h
    rcases prefix_append_cases hes with ⟨hshort, -⟩ | ⟨rest, rfl, hrest⟩
    · exact prefix_memberEvents members hshort
    · rcases List.prefix_cons_iff.mp hrest with rfl | ⟨t, rfl, ht⟩
      · exact ⟨members, [], rfl, .nothing⟩
      · rw [List.prefix_nil.mp ht] at hne
        exact absurd rfl hne
  | array vs =>
    rw [events, List.cons_append] at h
    exact absurd (List.cons_prefix_cons.mp h).1 (by simp)
  | _ =>
    rw [events] at h
    exact absurd (List.cons_prefix_cons.mp h).1 (by simp)

end Haybarn.Lib.JsonDoc
