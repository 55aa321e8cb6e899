import Biblio.Text.DecimalDigit

/-! Controlled vocabularies, and the names of accounts. -/

namespace Biblio.Vocabulary

/-- The types of release: those of the Citation Style Language and a few more. -/
def releaseTypes : List String :=
  ["article", "article-magazine", "article-newspaper", "article-journal", "bill", "book",
   "broadcast", "chapter", "dataset", "entry", "entry-dictionary", "entry-encyclopedia", "figure",
   "graphic", "interview", "legislation", "legal_case", "manuscript", "map", "motion_picture",
   "musical_score", "pamphlet", "paper-conference", "patent", "post", "post-weblog",
   "personal_communication", "report", "review", "review-book", "song", "speech", "thesis",
   "treaty", "webpage", "peer_review", "software", "standard", "stub"]

/-- The release type of a placeholder, which needs no title. -/
def stubType : String := "stub"

/-- The roles of contributors: those of the Citation Style Language. -/
def contributorRoles : List String :=
  ["author", "collection-editor", "composer", "container-author", "director", "editor",
   "editorial-director", "editortranslator", "illustrator", "interviewer", "original-author",
   "recipient", "reviewed-author", "translator"]

/-- A letter of ASCII. -/
def isLetter (c : Char) : Bool := ('a' ≤ c && c ≤ 'z') || ('A' ≤ c && c ≤ 'Z')

/-- A character that a username may have behind its first one. -/
def isUsernameChar (c : Char) : Bool := isLetter c || Text.isAsciiDigit c || c == '_' || c == '-'

/-- A letter and 1 to 23 more characters. -/
def isUsername (s : String) : Bool :=
  match s.toList with
  | [] => false
  | c :: cs => isLetter c && cs.all isUsernameChar && 1 ≤ cs.length && cs.length ≤ 23

end Biblio.Vocabulary
