import Biblio.Json.Decoder

/-! Metadata that no field of an entity is made for: JSON members under any keys.

    They are kept in canonical form, so that two maps with the same entries are equal in whatever
    order they were written. -/

namespace Biblio

/-- Members in canonical form. -/
structure Extra where
  members : List (String × Json)
  isCanonical : Json.IsCanonical (.obj members)
  deriving DecidableEq

namespace Extra

/-- No metadata. -/
def empty : Extra := ⟨[], List.Pairwise.nil, trivial⟩

instance : Inhabited Extra := ⟨empty⟩

/-- The metadata of these members; the last member with a key stays. -/
def ofMembers (ms : List (String × Json)) : Extra :=
  ⟨Json.canonicalMembers ms, Json.canonicalMembers_isCanonical ms⟩

/-- Whether there is no metadata. -/
def isEmpty (x : Extra) : Bool := x.members.isEmpty

/-- Metadata as JSON. -/
def toJson (x : Extra) : Json := .obj x.members

/-- The member that metadata fills, left out without any. -/
def member? (x : Extra) : List (String × Json) := if x.isEmpty then [] else [("extra", x.toJson)]

/-- Metadata from JSON. -/
def decoder : Json.Decoder Extra := Json.Decoder.members.map ofMembers

/-- A field for metadata, which may be left out. -/
def field : Json.Decoder.Fields Extra := Json.Decoder.defaulted "extra" decoder empty

end Extra

end Biblio
