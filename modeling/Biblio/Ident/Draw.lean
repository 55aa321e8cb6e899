import Biblio.Digest.Sha256
import Biblio.Ident.Uuid

/-! Identifiers drawn from a seed: as many as are wanted, and the same ones from the same seed. -/

namespace Biblio.Uuid

/-- The bits that tell the version of an identifier. -/
def versionMask : BitVec 128 := 0xF#128 <<< 76

/-- The bits that tell the variant of an identifier. -/
def variantMask : BitVec 128 := 0x3#128 <<< 62

/-- The identifier of these bits, with the marks of a random one: version 4 of the usual variant. -/
def marked (bits : BitVec 128) : Uuid :=
  ⟨(bits &&& ~~~(versionMask ||| variantMask)) ||| 0x4#128 <<< 76 ||| 0x2#128 <<< 62⟩

/-- The identifier with this number among those of a seed. -/
def draw (seed : String) (n : Nat) : Uuid :=
  let digest := Sha256.ofText (seed ++ ":" ++ String.ofList (Text.decimal n))
  marked (BitVec.ofNat 128 (Text.ofDigits 16 (digest.toList.filterMap Text.hexValue?)))

end Biblio.Uuid
