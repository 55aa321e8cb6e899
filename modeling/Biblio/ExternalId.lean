import Biblio.Text.DecimalDigit

/-! External identifiers: the names that registries outside the catalog give to its entities.

    Each kind has a syntax of its own. The numbering schemes take the decimal digits of every
    script (but the check character of a linking ISSN is an ASCII digit or `X`); the digests take
    lower-case hexadecimal digits of ASCII. -/

namespace Biblio

/-- The registries. -/
inductive ExternalIdKind where
  | doi
  | issnl
  | orcid
  | wikidataQid
  | pmid
  | pmcid
  | md5
  | sha1
  | sha256
  deriving DecidableEq, Repr

namespace ExternalIdKind

/-- All registries. -/
def all : List ExternalIdKind :=
  [.doi, .issnl, .orcid, .wikidataQid, .pmid, .pmcid, .md5, .sha1, .sha256]

/-- The name of a registry. -/
def name : ExternalIdKind → String
  | .doi => "doi"
  | .issnl => "issnl"
  | .orcid => "orcid"
  | .wikidataQid => "wikidata_qid"
  | .pmid => "pmid"
  | .pmcid => "pmcid"
  | .md5 => "md5"
  | .sha1 => "sha1"
  | .sha256 => "sha256"

/-- The registry of a name. -/
def ofName? (s : String) : Option ExternalIdKind := all.find? fun k => k.name == s

/-- What a registry's identifiers look like, for one who wrote something else. -/
def expected : ExternalIdKind → String
  | .doi => "a DOI, eg, '10.1234/aksjdfh'"
  | .issnl => "an ISSN, eg, '1234-5678'"
  | .orcid => "an ORCID, eg, '0123-4567-3456-6789'"
  | .wikidataQid => "a Wikidata QID, eg, 'Q1234'"
  | .pmid => "a PubMed ID, eg, '1234'"
  | .pmcid => "a PubMed Central ID, eg, 'PMC12345'"
  | .md5 => "lower-case hex MD5 (32 chars)"
  | .sha1 => "lower-case hex SHA-1 (40 chars)"
  | .sha256 => "lower-case hex SHA-256 (64 chars)"

end ExternalIdKind

/-- An identifier of one registry. -/
structure ExternalId where
  kind : ExternalIdKind
  value : String
  deriving DecidableEq, Repr

namespace ExternalId

/-- The text has as many characters as there are classes, each in its class. -/
def fits : List (Char → Bool) → List Char → Bool
  | [], [] => true
  | p :: ps, c :: cs => p c && fits ps cs
  | _, _ => false

/-- One character and no other. -/
def only (c : Char) : Char → Bool := (· == c)

/-- A digit or the letter `X`. -/
def orX (digit : Char → Bool) (c : Char) : Bool := digit c || c == 'X'

/-- A hexadecimal digit in lower case. -/
def isLowerHex (c : Char) : Bool := Text.isAsciiDigit c || ('a' ≤ c && c ≤ 'f')

/-- Digits of any script, at least one. -/
def isNumber (cs : List Char) : Bool := !cs.isEmpty && cs.all Text.isDecimalDigit

/-- `10.`, three to six digits, a slash, and more characters on the same line. -/
def isDoi : List Char → Bool
  | '1' :: '0' :: '.' :: rest =>
    let registrant := rest.takeWhile Text.isDecimalDigit
    match rest.dropWhile Text.isDecimalDigit with
    | '/' :: suffix =>
      3 ≤ registrant.length && registrant.length ≤ 6 && !suffix.isEmpty && suffix.all (· != '\n')
    | _ => false
  | _ => false

/-- Four digits. -/
def fourDigits : List (Char → Bool) := List.replicate 4 Text.isDecimalDigit

/-- Three digits. -/
def threeDigits : List (Char → Bool) := List.replicate 3 Text.isDecimalDigit

/-- Two groups of four with a hyphen between them. -/
def isIssn (cs : List Char) : Bool :=
  fits (fourDigits ++ only '-' :: threeDigits ++ [orX Text.isAsciiDigit]) cs

/-- Four groups of four with hyphens between them. -/
def isOrcid (cs : List Char) : Bool :=
  fits (fourDigits ++ only '-' :: fourDigits ++ only '-' :: fourDigits ++ only '-' ::
    threeDigits ++ [orX Text.isDecimalDigit]) cs

/-- These letters and a number. -/
def isLettersAndNumber (letters : List Char) (cs : List Char) : Bool :=
  cs.take letters.length == letters && isNumber (cs.drop letters.length)

/-- A digest of so many hexadecimal digits. -/
def isDigest (width : Nat) (cs : List Char) : Bool := fits (List.replicate width isLowerHex) cs

/-- The syntax of a registry's identifiers. -/
def admits : ExternalIdKind → List Char → Bool
  | .doi => isDoi
  | .issnl => isIssn
  | .orcid => isOrcid
  | .wikidataQid => isLettersAndNumber ['Q']
  | .pmid => isNumber
  | .pmcid => isLettersAndNumber ['P', 'M', 'C']
  | .md5 => isDigest 32
  | .sha1 => isDigest 40
  | .sha256 => isDigest 64

/-- The identifier has the syntax of its registry. -/
def isWellFormed (x : ExternalId) : Bool := admits x.kind x.value.toList

end ExternalId

end Biblio
