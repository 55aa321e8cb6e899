import Biblio.Error.Catalog

/-! Cells of the tables, and what is read from them.

    Identifiers, kinds of entity and statuses are kept as text. A cell that is no text is refused
    whatever its column holds; a text is refused if it does not name such a thing, and one that was
    written from such a thing is read as it (`Cell.readNamed_text`). -/

namespace Biblio

/-- What one cell of a table holds. -/
inductive Cell where
  | null
  | integer (n : Int)
  | text (s : String)
  deriving DecidableEq, Repr

/-- Why a cell does not hold what its column is for. -/
inductive CellError where
  | notText
  | noIdent (raw : String)
  | noKind (raw : String)
  | noStatus (raw : String)
  deriving DecidableEq, Repr

/-- The error in words. -/
def CellError.message : CellError → String
  | notText => "the cell holds no text"
  | noIdent raw => (CatalogError.invalidIdent raw).message
  | noKind raw => (CatalogError.validation [⟨"entity", "entity_type", .unknownKind raw⟩]).message
  | noStatus raw => "unknown editgroup status: " ++ raw

namespace Cell

/-- The text in the cell. -/
def readText : Cell → Except CellError String
  | text s => .ok s
  | null | integer _ => .error .notText

/-- The value that the text in the cell names, if `named?` knows it. -/
def readNamed {α : Type} (named? : String → Option α) (unknown : String → CellError) (c : Cell) :
    Except CellError α :=
  match c.readText with
  | .error e => .error e
  | .ok s => match named? s with
    | some a => .ok a
    | none => .error (unknown s)

/-- The identifier in the cell. -/
def readIdent (kind : IdentKind) : Cell → Except CellError (Ident kind) :=
  readNamed (Ident.parse? kind) .noIdent

/-- The kind of entity in the cell. -/
def readKind : Cell → Except CellError EntityKind := readNamed EntityKind.ofName? .noKind

/-- The status in the cell. -/
def readStatus : Cell → Except CellError EditgroupStatus :=
  readNamed EditgroupStatus.ofName? .noStatus

/-- A text that names a value is read as that value. -/
theorem readNamed_text {α : Type} {named? : String → Option α} {unknown : String → CellError}
    {s : String} {a : α} (h : named? s = some a) : readNamed named? unknown (text s) = .ok a := by
  simp [readNamed, readText, h]

end Cell

/-- The cell that keeps an identifier. -/
def Ident.toCell {kind : IdentKind} (id : Ident kind) : Cell := .text id.text

/-- The cell that keeps a kind. -/
def EntityKind.toCell (k : EntityKind) : Cell := .text k.name

/-- The cell that keeps a status. -/
def EditgroupStatus.toCell (s : EditgroupStatus) : Cell := .text s.name

end Biblio
