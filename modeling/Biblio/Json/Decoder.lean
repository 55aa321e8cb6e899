import Biblio.Json.Reader

/-! Decoding documents into typed values.

    A decoder meets the faults of a document in the order of the text. Values given as such, and
    values set aside until their tag is known, have no faults left but one: the wrong shape.

    Records may be objects, in which unknown members are skipped and known ones may not repeat, or
    arrays of their fields in order. A tagged value is an object with a tag and a content, in either
    order, or an array of the two. -/

namespace Biblio.Json

/-- What a document was made from: a text, `depth` brackets deep, or a value. -/
inductive Origin where
  | text (depth : Nat)
  | value
  deriving DecidableEq, Repr

/-- The greatest number of brackets around anything in a text. -/
def maxDepth : Nat := 127

/-- One bracket deeper. -/
def Origin.enter : Origin → Except Fault Origin
  | .value => .ok .value
  | .text depth => if depth < maxDepth then .ok (.text (depth + 1)) else .error .malformed

/-- The fault of something that no reader expects here. -/
def Origin.surplus : Origin → Fault
  | .value => .misfit
  | .text _ => .malformed

/-- A way to make typed values from documents. -/
abbrev Decoder (α : Type) := Origin → Document → Except Fault α

/-- Fails with the fault of a break for one who reads. -/
def readStop : Option Break → Except Fault Unit
  | none => .ok ()
  | some b => .error b.read

/-- The name in the place of a member's name. -/
def Key.read : Key → Except Fault String
  | .name s => .ok s
  | .unreadable => .error .malformed
  | .broken b => .error b.read
  | .stray => .error .malformed

mutual

/-- Any value. -/
def anyValue (o : Origin) : Document → Except Fault Json
  | .null => .ok .null
  | .bool b => .ok (.bool b)
  | .int n => .ok (.int n)
  | .real d => .ok (.real d)
  | .str s => .ok (.str s)
  | .unreadable => .error .malformed
  | .broken b => .error b.read
  | .arr items stop => do
    let js ← anyItems (← o.enter) items
    readStop stop
    return .arr js
  | .obj members stop => do
    let ms ← anyMembers (← o.enter) members
    readStop stop
    return .obj ms

/-- Any values, one after the other. -/
def anyItems (o : Origin) : List Document → Except Fault (List Json)
  | [] => .ok []
  | item :: items => do
    let j ← anyValue o item
    return j :: (← anyItems o items)

/-- Any members, one after the other. -/
def anyMembers (o : Origin) : List (Key × Document) → Except Fault (List (String × Json))
  | [] => .ok []
  | (key, value) :: members => do
    let name ← key.read
    let j ← anyValue o value
    return (name, j) :: (← anyMembers o members)

end

namespace Decoder

variable {α β : Type}

/-- Decodes a text that holds one value and nothing else. -/
def ofText (dec : Decoder α) (s : String) : Except Fault α := do
  let (d, trailing) := Document.ofText s
  let a ← dec (.text 0) d
  match trailing with
  | none => return a
  | some f => throw f

/-- Decodes a value. -/
def ofValue (dec : Decoder α) (j : Json) : Except Fault α := dec .value (.ofJson j)

/-- A value that a decoder's result stands for, if it stands for one. -/
def refine (dec : Decoder α) (f : α → Option β) : Decoder β := fun o d => do
  match f (← dec o d) with
  | some b => return b
  | none => throw .misfit

/-- The decoded value under another form. -/
def map (f : α → β) (dec : Decoder α) : Decoder β := fun o d => (dec o d).map f

/-- A string. -/
def string : Decoder String
  | _, .str s => .ok s
  | _, d => .error d.misfit

/-- A truth value. -/
def bool : Decoder Bool
  | _, .bool b => .ok b
  | _, d => .error d.misfit

/-- An integer of the signed 64-bit range, written as an integer. -/
def int64 : Decoder Int64
  | _, .int n => match n.signed? with
    | some i => .ok i
    | none => .error .misfit
  | _, d => .error d.misfit

/-- An integer of the unsigned 64-bit range, written as an integer. -/
def uint64 : Decoder UInt64
  | _, .int n => match n.unsigned? with
    | some i => .ok i
    | none => .error .misfit
  | _, d => .error d.misfit

/-- Null and nothing else. -/
def null (a : α) : Decoder α
  | _, .null => .ok a
  | _, d => .error d.misfit

/-- Null, or a value. -/
def nullable (dec : Decoder α) : Decoder (Option α)
  | _, .null => .ok none
  | o, d => (dec o d).map some

/-- Values decoded one after the other. -/
def items (dec : Decoder α) (o : Origin) : List Document → Except Fault (List α)
  | [] => .ok []
  | d :: ds => do
    let a ← dec o d
    return a :: (← items dec o ds)

/-- An array of values. -/
def list (dec : Decoder α) : Decoder (List α)
  | o, .arr ds stop => do
    let xs ← items dec (← o.enter) ds
    readStop stop
    return xs
  | _, d => .error d.misfit

/-- The members of an object. -/
def members : Decoder (List (String × Json))
  | o, .obj ms stop => do
    let xs ← anyMembers (← o.enter) ms
    readStop stop
    return xs
  | _, d => .error d.misfit

/-! ### Choices -/

/-- One case of a choice: a bare name, or a name with a value. -/
inductive Case (α : Type) where
  | bare (a : α)
  | carrying (dec : Decoder α)

/-- The case of this name; another name is a misfit. -/
def Case.named (cases : List (String × Case α)) (name : String) : Except Fault (Case α) :=
  match cases.lookup name with
  | some c => .ok c
  | none => .error .misfit

/-- One of several cases: a bare name as a string, or an object of one member, whose value is null
    for a bare name. -/
def choice (cases : List (String × Case α)) : Decoder α
  | _, .str s => do
    match ← Case.named cases s with
    | .bare a => return a
    | .carrying _ => throw .misfit
  | o, .obj ms stop => do
    let inner ← o.enter
    match ms with
    | [] =>
      readStop stop
      throw o.surplus
    | (key, value) :: rest =>
      let a ← match ← Case.named cases (← key.read) with
        | .bare a => null a inner value
        | .carrying dec => dec inner value
      if rest.isEmpty then
        readStop stop
        return a
      else throw o.surplus
  | _, .broken b => .error b.asCase
  | o, _ => .error o.surplus

/-- A choice of bare names. -/
def oneOf (cases : List (String × α)) : Decoder α :=
  choice (cases.map fun (name, a) => (name, .bare a))

/-! ### Records -/

/-- The documents found for the fields of a record, and whether they were found by their place. -/
structure Found where
  get : String → Option Document
  byPlace : Bool

/-- The fields of a record in order, with a decoder each, and the record made of them. -/
structure Fields (α : Type) where
  checks : List (String × Decoder Unit)
  build : Origin → Found → Except Fault α

instance : Functor Fields where
  map f x := { checks := x.checks, build := fun o found => (x.build o found).map f }

instance : Seq Fields where
  seq f x :=
    let rest := x ()
    { checks := f.checks ++ rest.checks
      build := fun o found => do
        let g ← f.build o found
        let a ← rest.build o found
        return g a }

/-- Forgets the decoded value. -/
def check (dec : Decoder α) : Decoder Unit := fun o d => (dec o d).map fun _ => ()

/-- A field that must be there. -/
def required (name : String) (dec : Decoder α) : Fields α where
  checks := [(name, check dec)]
  build o found := match found.get name with
    | some d => dec o d
    | none => .error .misfit

/-- A field that has a default. -/
def defaulted (name : String) (dec : Decoder α) (otherwise : α) : Fields α where
  checks := [(name, check dec)]
  build o found := match found.get name with
    | some d => dec o d
    | none => .ok otherwise

/-- A field that may be null, and may be left out of an object. -/
def optional (name : String) (dec : Decoder α) : Fields (Option α) where
  checks := [(name, check (nullable dec))]
  build o found := match found.get name with
    | some d => nullable dec o d
    | none => if found.byPlace then .error .misfit else .ok none

/-- A field that may be null, or left out anywhere. -/
def optionalAnywhere (name : String) (dec : Decoder α) : Fields (Option α) :=
  defaulted name (nullable dec) none

/-- Checks members in order: known ones are decoded and may not repeat, others are skipped. -/
def checkMembers (checks : List (String × Decoder Unit)) (o : Origin) :
    List String → List (Key × Document) → Except Fault Unit
  | _, [] => .ok ()
  | seen, (key, value) :: ms => do
    let name ← key.read
    match checks.lookup name with
    | none =>
      value.skip
      checkMembers checks o seen ms
    | some dec =>
      if seen.contains name then throw .misfit
      dec o value
      checkMembers checks o (name :: seen) ms

/-- Checks items in order against the fields in order; answers the items beyond the last field. -/
def checkItems (o : Origin) :
    List (String × Decoder Unit) → List Document → Except Fault (List Document)
  | _, [] => .ok []
  | [], surplus => .ok surplus
  | (_, dec) :: checks, d :: ds => do
    dec o d
    checkItems o checks ds

/-- The document that a name has among members. -/
def member? (ms : List (Key × Document)) (name : String) : Option Document :=
  ms.findSome? fun (key, value) => if key = .name name then some value else none

/-- A record from its fields: an object, or an array in the order of the fields. -/
def record (fields : Fields α) : Decoder α
  | o, .obj ms stop => do
    let inner ← o.enter
    checkMembers fields.checks inner [] ms
    readStop stop
    fields.build inner ⟨member? ms, false⟩
  | o, .arr ds stop => do
    let inner ← o.enter
    let surplus ← checkItems inner fields.checks ds
    if surplus.isEmpty then
      readStop stop
      fields.build inner ⟨fun name => List.lookup name ((fields.checks.map (·.1)).zip ds), true⟩
    else throw o.surplus
  | _, d => .error d.misfit

/-! ### Tagged values -/

/-- What stands behind one tag: how its content is decoded, and its value without content, if it
    may have none. -/
structure Tagged (α : Type) where
  content : Decoder α
  bare : Option α

/-- The next member that is the tag (`true`) or the content (`false`); others are skipped. -/
def nextPart (tag content : String) (stop : Option Break) : List (Key × Document) →
    Except Fault (Option (Bool × Document × List (Key × Document)))
  | [] => do
    readStop stop
    return none
  | (key, value) :: ms => do
    let name ← key.read
    if name = tag then return some (true, value, ms)
    else if name = content then return some (false, value, ms)
    else
      value.skip
      nextPart tag content stop ms

/-- Neither the tag nor the content comes again. -/
def noMoreParts (tag content : String) (stop : Option Break) (ms : List (Key × Document)) :
    Except Fault Unit := do
  match ← nextPart tag content stop ms with
  | none => return ()
  | some _ => throw .misfit

/-- A value that its tag decides: an object with the tag and the content in either order, or an
    array of the two. A content in front of its tag is set aside as a value. The tag of an object
    is a choice, that of an array a string. -/
def tagged (tag content : String) (cases : List (String × Tagged α)) : Decoder α
  | o, .obj ms stop => do
    let inner ← o.enter
    match ← nextPart tag content stop ms with
    | none => throw .misfit
    | some (true, tagDoc, ms) =>
      let c ← oneOf cases inner tagDoc
      match ← nextPart tag content stop ms with
      | none => match c.bare with
        | some a => return a
        | none => throw .misfit
      | some (true, _, _) => throw .misfit
      | some (false, contentDoc, ms) =>
        let a ← c.content inner contentDoc
        noMoreParts tag content stop ms
        return a
    | some (false, contentDoc, ms) =>
      let _ ← anyValue inner contentDoc
      match ← nextPart tag content stop ms with
      | some (true, tagDoc, ms) =>
        let c ← oneOf cases inner tagDoc
        let a ← c.content .value contentDoc
        noMoreParts tag content stop ms
        return a
      | _ => throw .misfit
  | o, .arr ds stop => do
    let inner ← o.enter
    match ds with
    | [] =>
      readStop stop
      throw .misfit
    | tagDoc :: rest =>
      let c ← string.refine (cases.lookup ·) inner tagDoc
      match rest with
      | [] =>
        readStop stop
        throw .misfit
      | contentDoc :: surplus =>
        let a ← c.content inner contentDoc
        if surplus.isEmpty then
          readStop stop
          return a
        else throw o.surplus
  | _, d => .error d.misfit

end Decoder

end Biblio.Json
