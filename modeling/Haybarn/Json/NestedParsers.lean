import Haybarn.Json.Builders

/-!
# The parsers of nested types (`json_parser.cc`)

`Resolve` makes an array parser for a type, with the parsers of its children in it. Appending a
value to the builder of a list appends a slot and then the elements to the builder of the child; a
struct appends to all its children and then a slot; and so on. Where a part of the value does not
fit, the parser returns an error, and what has been appended before stays. Nobody takes it back: who
reads a table gives up on an error.

Mirroring notes:
- `Appended` is the status of an append together with the builder that it leaves.
- `undefined` is an access outside of a table. The parser of a union looks up the type id, cut to
  eight bits, without a comparison.
- A parser without children is its conversion of values (`parse`); it appends what that gives.
- `other_converter != child_converter` compares pointers to different parsers; the model compares
  their positions.
- The message about an unknown type id holds the id as a character.
-/

namespace Haybarn.Json

open Lib.JsonDoc

/-! ## Appending -/

inductive Appended (B : Type)
  | ok (b : B)
  | error (message : String) (b : B)
  | undefined

namespace Appended

variable {A B : Type}

/-- Makes one builder of another: one way after a success, and another after an error. -/
def build (good bad : A → B) : Appended A → Appended B
  | .ok a => .ok (good a)
  | .error message a => .error message (bad a)
  | .undefined => .undefined

def map (f : A → B) (r : Appended A) : Appended B := r.build f f

/-- `RETURN_NOT_OK`, and what follows. -/
def andThen (r : Appended A) (next : A → Appended A) : Appended A :=
  match r with
  | .ok a => next a
  | r => r

end Appended

variable {L V : Type}

/-- An array parser, over the builder that it has. -/
structure Parser (V : Type) where
  appendValue : Json → Builder V → Appended (Builder V)
  appendNull : Builder V → Builder V

/-- `JSONTypeError` -/
def typeError {B : Type} (expectedType : String) (v : Json) (b : B) : Appended B :=
  .error ("Expected " ++ expectedType ++ " or null, got " ++ jsonTypeToString v) b

/-- A loop over the elements of an array. -/
def appendEach {A : Type} (append : Json → A → Appended A) : List Json → A → Appended A
  | [], a => .ok a
  | v :: vs, a => (append v a).andThen (appendEach append vs)

/-- `AppendValues` -/
def Parser.appendValues (p : Parser V) (v : Json) (b : Builder V) : Appended (Builder V) :=
  match v with
  | .array vs => appendEach p.appendValue vs b
  | v => typeError "array" v b

/-- `if (json_obj.IsNull()) return this->AppendNull();` -/
def Parser.orNull (appendNull : Builder V → Builder V)
    (appendValue : Json → Builder V → Appended (Builder V)) : Parser V where
  appendValue v b :=
    match v with
    | .null => .ok (appendNull b)
    | v => appendValue v b
  appendNull := appendNull

section Parsers

variable (appendNull : Builder V → Builder V)

def leafParser (parse : Json → Except String V) : Parser V :=
  .orNull appendNull fun v b =>
    match b with
    | .leaf values =>
      match parse v with
      | .ok x => .ok (.leaf (values ++ [some x]))
      | .error message => .error message b
    | _ => .undefined

/-- `ListArrayParser` -/
def listArrayParser (child : Parser V) : Parser V :=
  .orNull appendNull fun v b =>
    match b with
    | .list offsets valid c =>
      -- the slot comes first
      (child.appendValues v c).map (.list (offsets ++ [c.length]) (valid ++ [true]))
    | _ => .undefined

/-- `json_obj.GetArray().Size()` -/
def arraySize : Json → Nat
  | .array vs => vs.length
  | _ => 0

/-- `FixedSizeListArrayParser` -/
def fixedSizeListArrayParser (listSize : Nat) (child : Parser V) : Parser V :=
  .orNull appendNull fun v b =>
    match b with
    | .fixedSizeList valid c =>
      ((child.appendValues v c).andThen fun c =>
        if arraySize v ≠ listSize then .error ("incorrect list size " ++ toString (arraySize v)) c
        else .ok c).map (.fixedSizeList (valid ++ [true]))
    | _ => .undefined

/-- The body of the loop of `MapArrayParser`, over the builders of the keys and of the items. -/
def appendPair (key item : Parser V) (v : Json) (s : Builder V × Builder V) :
    Appended (Builder V × Builder V) :=
  match v with
  | .array [k, w] =>
    match k with
    | .null => .error "null key is invalid" s
    | k =>
      ((key.appendValue k s.1).map fun b => (b, s.2)).andThen fun s =>
        (item.appendValue w s.2).map fun b => (s.1, b)
  | .array vs =>
    .error ("key item pair must have exactly two elements, had " ++ toString vs.length) s
  | v => typeError "array" v s

/-- `MapArrayParser` -/
def mapArrayParser (key item : Parser V) : Parser V :=
  .orNull appendNull fun v b =>
    match b with
    | .map offsets valid k i =>
      (match v with
        | .array vs => appendEach (appendPair key item) vs (k, i)
        | v => typeError "array" v (k, i)).map
          fun (s : Builder V × Builder V) => .map (offsets ++ [k.length]) (valid ++ [true]) s.1 s.2
    | _ => .undefined

/-- One append for every child, until one fails. -/
def appendToEach : List (Builder V → Appended (Builder V)) → List (Builder V) →
    Appended (List (Builder V))
  | append :: appends, c :: cs =>
    match append c with
    | .ok c => (appendToEach appends cs).map (c :: ·)
    | .error message c => .error message (c :: cs)
    | .undefined => .undefined
  | _, cs => .ok cs

/-- `AnnotateErrorWithField` -/
def annotateField (field : String) : Appended (Builder V) → Appended (Builder V)
  | .error message b => .error ("Invalid field '" ++ field ++ "'. " ++ message) b
  | r => r

/-- A field of an object; an omitted member is null. -/
def appendMember (members : List (String × Json)) (field : String × Parser V) (c : Builder V) :
    Appended (Builder V) :=
  annotateField field.1
    (match findMember field.1 members with
      | some w => field.2.appendValue w c
      | none => .ok (field.2.appendNull c))

/-- `StructArrayParser` -/
def structArrayParser (fields : List (String × Parser V)) : Parser V :=
  .orNull appendNull fun v b =>
    match b with
    | .struct valid cs =>
      match v with
      | .array vs =>
        if vs.length ≠ fields.length then
          .error ("Expected array of size " ++ toString fields.length ++
            ", got array of size " ++ toString vs.length) b
        else
          (appendToEach (List.zipWith (fun f w => f.2.appendValue w) fields vs) cs).build
            (.struct (valid ++ [true])) (.struct valid)
      | .object members =>
        (appendToEach (fields.map (appendMember members)) cs).build
          (.struct (valid ++ [true])) (.struct valid)
      | v => typeError "array or object" v b
    | _ => .undefined

/-- `type_id_to_child_num_`, with nothing for -1. It has an entry for every code up to the largest
one. -/
def typeIdToChildNum (typeCodes : List Nat) : List (Option Nat) :=
  typeCodes.zipIdx.foldl (fun table c => table.set c.1 (some c.2))
    (List.replicate (typeCodes.foldr (fun c size => max (c + 1) size) 0) none)

/-- `type_id_to_child_num_[id]`, if the table has the entry. -/
def childNum (typeCodes : List Nat) (id : Int) : Option (Option Nat) :=
  if id < 0 then none else (typeIdToChildNum typeCodes)[id.toNat]?

/-- `child_converter->AppendValue` of a union. -/
def appendToChild (children : List (Parser V)) (k : Nat) (w : Json) (cs : List (Builder V)) :
    Appended (List (Builder V)) :=
  match children[k]?, cs[k]? with
  | some p, some c => (p.appendValue w c).map (cs.set k)
  | _, _ => .undefined

/-- `AppendNull` to all children but the `k`-th. -/
def appendNullToOthers : Option Nat → List (Parser V) → List (Builder V) → List (Builder V)
  | some 0, _ :: ps, c :: cs => c :: appendNullToOthers none ps cs
  | some (k + 1), p :: ps, c :: cs => p.appendNull c :: appendNullToOthers (some k) ps cs
  | none, p :: ps, c :: cs => p.appendNull c :: appendNullToOthers none ps cs
  | _, _, cs => cs

/-- What `UnionArrayParser` does when the id has a child: a slot with the id, and the value for the
child. -/
def appendSlot (mode : UnionMode) (children : List (Parser V)) (k id : Nat) (w : Json)
    (types offsets : List Nat) (cs : List (Builder V)) : Appended (Builder V) :=
  match mode with
  | .sparse =>
    (appendToChild children k w (appendNullToOthers (some k) children cs)).map
      (.union (types ++ [id]) offsets)
  | .dense =>
    (appendToChild children k w cs).map
      (.union (types ++ [id]) (offsets ++ [(cs[k]?.map Builder.length).getD 0]))

/-- What `UnionArrayParser` does with the id and the value of a slot. -/
def appendTyped (mode : UnionMode) (typeCodes : List Nat) (typeName : String)
    (children : List (Parser V)) (id : Int) (w : Json) (types offsets : List Nat)
    (cs : List (Builder V)) : Appended (Builder V) :=
  match childNum typeCodes id with
  | none => .undefined
  | some none =>
    .error ("type_id " ++ String.singleton (Char.ofNat (id % 2 ^ 8).toNat) ++ " not found in " ++
      typeName) (.union types offsets cs)
  | some (some k) => appendSlot mode children k id.toNat w types offsets cs

/-- `UnionArrayParser` -/
def unionArrayParser (mode : UnionMode) (typeCodes : List Nat) (typeName : String)
    (children : List (Parser V)) : Parser V :=
  .orNull appendNull fun v b =>
    match b with
    | .union types offsets cs =>
      match v with
      | .array [first, w] =>
        match first with
        | .number x =>
          if !isInt x then typeError "int" (.number x) b
          else
            appendTyped mode typeCodes typeName children (x.value.bmod (2 ^ 8)) w types offsets cs
        | first => typeError "int" first b
      | .array vs =>
        .error ("Expected [type_id, value] pair, got array of size " ++ toString vs.length) b
      | v => typeError "array" v b
    | _ => .undefined

end Parsers

mutual

/-- `Resolve` -/
def resolve (arrow : Arrow L V) (parse : L → Json → Except String V) : NestedType L → Parser V
  | .leaf l => leafParser (arrow.appendNull (.leaf l)) (parse l)
  | .list value => listArrayParser (arrow.appendNull (.list value)) (resolve arrow parse value)
  | .fixedSizeList listSize value =>
    fixedSizeListArrayParser (arrow.appendNull (.fixedSizeList listSize value)) listSize
      (resolve arrow parse value)
  | .map key item => mapArrayParser (arrow.appendNull (.map key item)) (resolve arrow parse key)
      (resolve arrow parse item)
  | .struct fields =>
    structArrayParser (arrow.appendNull (.struct fields)) (resolveFields arrow parse fields)
  | .union mode typeCodes fields =>
    unionArrayParser (arrow.appendNull (.union mode typeCodes fields)) mode typeCodes
      (arrow.typeToString (.union mode typeCodes fields))
      ((resolveFields arrow parse fields).map Prod.snd)

def resolveFields (arrow : Arrow L V) (parse : L → Json → Except String V) :
    List (String × NestedType L) → List (String × Parser V)
  | [] => []
  | (name, t) :: fields => (name, resolve arrow parse t) :: resolveFields arrow parse fields

end

end Haybarn.Json
