import Biblio.Text.Blank
import Biblio.Text.Digits

/-! File names that are written as URIs.

    A name that begins with `file:` is a URI: a path, perhaps behind the authority of this machine,
    then parameters behind `?`, then a fragment behind `#`, which does not count. Any octet may be
    written as `%` and two hexadecimal digits. -/

namespace Biblio

/-- A file named by a URI, with its parameters in order. -/
structure FileUri where
  path : String
  parameters : List (String × String)
  deriving DecidableEq, Repr

namespace FileUri

/-- What a URI of a file begins with. -/
def scheme : List Char := "file:".toList

/-- The octets that a part of a URI stands for; an octet of zero ends it. -/
def octets : List Char → List UInt8
  | '%' :: a :: b :: rest =>
    match Text.hexValue? a, Text.hexValue? b with
    | some high, some low =>
      if high * 16 + low = 0 then [] else UInt8.ofNat (high * 16 + low) :: octets rest
    | _, _ => 0x25 :: octets (a :: b :: rest)
  | c :: rest => (String.singleton c).toUTF8.toList ++ octets rest
  | [] => []

/-- The text that a part of a URI stands for. -/
def decode? (cs : List Char) : Option String := String.fromUTF8? ⟨(octets cs).toArray⟩

/-- What stands behind the authority, if that is this machine. -/
def behindAuthority? : List Char → Option (List Char)
  | '/' :: '/' :: rest =>
    let host := rest.takeWhile (· ≠ '/')
    if host = [] ∨ host = "localhost".toList then some (rest.drop host.length) else none
  | cs => some cs

/-- A parameter: its name, and its value behind `=`. -/
def parameter? (cs : List Char) : Option (String × String) := do
  let name := cs.takeWhile (· ≠ '=')
  return (← decode? name, ← decode? (cs.drop (name.length + 1)))

/-- A URI behind its scheme. Parameters without a name do not count. -/
def parse? (cs : List Char) : Option FileUri := do
  let text := (← behindAuthority? cs).takeWhile (· ≠ '#')
  let path := text.takeWhile (· ≠ '?')
  let parameters ← (Text.splitOn '&' (text.drop (path.length + 1))).mapM parameter?
  return { path := ← decode? path, parameters := parameters.filter fun (name, _) => name ≠ "" }

end FileUri

end Biblio
