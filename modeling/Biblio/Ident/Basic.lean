import Biblio.Ident.Token

/-! Identifiers of the things a catalog holds.

    Entities, editgroups and editors are named by tokens, revisions and edits by the canonical text
    of their 128 bits. The kind of thing is part of the type, so that an editor's identifier is
    never taken for an entity's. -/

namespace Biblio

/-- The kinds of things that have identifiers. -/
inductive IdentKind where
  | entity
  | editgroup
  | editor
  | revision
  | edit
  deriving DecidableEq, Repr

/-- Whether things of this kind are named by tokens. -/
def IdentKind.usesToken : IdentKind → Bool
  | .entity | .editgroup | .editor => true
  | .revision | .edit => false

/-- The identifier of a thing of this kind. -/
structure Ident (kind : IdentKind) where
  uuid : Uuid
  deriving DecidableEq, Repr

/-- A permanent identity of one entity; all kinds of entity share one space. -/
abbrev EntityId := Ident .entity
/-- A group of edits. -/
abbrev EditgroupId := Ident .editgroup
/-- An account that submits editgroups. -/
abbrev EditorId := Ident .editor
/-- An unchanging entity body. -/
abbrev RevisionId := Ident .revision
/-- One staged or accepted edit. -/
abbrev EditId := Ident .edit

namespace Ident

variable {kind : IdentKind}

/-- The characters that name the thing. -/
def chars (id : Ident kind) : List Char :=
  if kind.usesToken then Token.encode id.uuid else id.uuid.chars

/-- The text that names the thing. -/
def text (id : Ident kind) : String := String.ofList id.chars

/-- The identifier that a text names. -/
def parse? (kind : IdentKind) (s : String) : Option (Ident kind) :=
  (if kind.usesToken then Token.decode? s.toList else Uuid.parse? s.toList).map Ident.mk

/-- The order of the 128 bits. -/
def precedes (a b : Ident kind) : Bool := a.uuid.bits.toNat ≤ b.uuid.bits.toNat

end Ident

end Biblio
