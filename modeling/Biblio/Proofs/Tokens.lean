import Biblio.Proofs.RoundTrip
import Biblio.Store.Cell

/-! Tokens as an encoding.

    A character is a digit if its lower case is in the alphabet, where its place is its value. So a
    text is read as an identifier exactly if the identifier's token is the lower case of the text:
    no two identifiers share a token, and the other spellings of a token differ from it in the case
    of letters only. Which texts are read at all is said without the encoding: 26 digits, the last
    of them with two low bits of zero. -/

namespace Biblio

/-- All items have values, or there are none. -/
theorem mapM_eq_some {α β : Type} {f : α → Option β} {as : List α} {bs : List β} :
    as.mapM f = some bs ↔ as.map f = bs.map some := by
  induction as generalizing bs with
  | nil => cases bs <;> simp
  | cons a as ih =>
    rw [List.mapM_cons, List.map_cons]
    cases bs with
    | nil => cases f a <;> simp [Option.bind_eq_some_iff]
    | cons b bs => simp [Option.bind_eq_some_iff, ih]

/-- The digits of a number are found again from the number. -/
theorem Text.positional_ofDigits {base : Nat} {ds : List Nat} (h : ∀ d ∈ ds, d < base) :
    positional base ds.length (ofDigits base ds) = ds := by
  induction ds using List.reverseRecOn with
  | nil => rfl
  | append_singleton ds d ih =>
    have last : d < base := h d (List.mem_append_right _ List.mem_cons_self)
    have quotient : (ofDigits base ds * base + d) / base = ofDigits base ds := by
      rw [Nat.add_comm, Nat.add_mul_div_right _ _ (Nat.zero_lt_of_lt last),
        Nat.div_eq_of_lt last, Nat.zero_add]
    have remainder : (ofDigits base ds * base + d) % base = d := by
      rw [Nat.add_comm, Nat.add_mul_mod_self_right, Nat.mod_eq_of_lt last]
    rw [List.length_append, List.length_singleton, positional, ofDigits_append, quotient,
      remainder, ih fun d' hd' => h d' (List.mem_append_left _ hd')]

namespace Token

/-! ### Digits -/

/-- The characters of tokens, each at the place that is its value. -/
def alphabet : List Char := "abcdefghijklmnopqrstuvwxyz234567".toList

/-- The character stands for a digit: a letter of ASCII in either case, or one of `2` to `7`. -/
def IsDigit (c : Char) : Prop :=
  ('a' ≤ c ∧ c ≤ 'z') ∨ ('A' ≤ c ∧ c ≤ 'Z') ∨ ('2' ≤ c ∧ c ≤ '7')

/-- The value of a digit in either case. -/
def place (c : Char) : Nat := alphabet.idxOf c.toLower

/-- The text is the token of some identifier, but for the case of its letters. -/
structure IsToken (cs : List Char) : Prop where
  length : cs.length = 26
  digits : ∀ c ∈ cs, IsDigit c
  tail : ∀ c, cs.getLast? = some c → place c % 4 = 0

theorem digitChar_mem {d : Nat} (h : d < 32) : digitChar d ∈ alphabet := by
  have : ∀ d : Fin 32, digitChar d ∈ alphabet := by decide
  exact this ⟨d, h⟩

theorem idxOf_digitChar {d : Nat} (h : d < 32) : alphabet.idxOf (digitChar d) = d := by
  have : ∀ d : Fin 32, alphabet.idxOf (digitChar d) = d := by decide
  exact this ⟨d, h⟩

section Digits
variable {c : Char} {d : Nat}

theorem isDigit_iff : IsDigit c ↔ (0x61 ≤ c.toNat ∧ c.toNat ≤ 0x7A) ∨
    (0x41 ≤ c.toNat ∧ c.toNat ≤ 0x5A) ∨ (0x32 ≤ c.toNat ∧ c.toNat ≤ 0x37) := Iff.rfl

/-- What holds of the characters of a range, one by one, holds of each character in it. -/
theorem of_range {P : Char → Prop} {first width : Nat}
    (h : ∀ k : Fin width, P (Char.ofNat (first + k))) (ge : first ≤ c.toNat)
    (lt : c.toNat < first + width) : P c := by
  have here := h ⟨c.toNat - first, by omega⟩
  rwa [Nat.add_sub_cancel' ge, Char.ofNat_toNat] at here

/-- The case of a digit makes no difference. -/
theorem digitValue?_toLower (c : Char) : digitValue? c.toLower = digitValue? c := by
  by_cases upper : 0x41 ≤ c.toNat ∧ c.toNat ≤ 0x5A
  · have letters : ∀ k : Fin 26, digitValue? (Char.ofNat (0x41 + k)).toLower =
        digitValue? (Char.ofNat (0x41 + k)) := by decide
    exact of_range (P := fun c => digitValue? c.toLower = digitValue? c) letters upper.1 (by omega)
  · have same : c.toLower = c := dif_neg fun ⟨ge, le⟩ => upper ⟨ge, le⟩
    rw [same]

theorem isSome_digitValue? : (digitValue? c).isSome ↔ IsDigit c := by
  rw [isDigit_iff]
  unfold digitValue?
  dsimp only
  split
  · simp [*]
  · split
    · simp [*]
    · split <;> simp [*]

/-- The lower case of a digit is the character of its value. -/
theorem IsDigit.cases (h : IsDigit c) :
    ∃ d < 32, digitValue? c = some d ∧ c.toLower = digitChar d := by
  have lower : ∀ k : Fin 26, ∃ d < 32, digitValue? (Char.ofNat (0x61 + k)) = some d ∧
      (Char.ofNat (0x61 + k)).toLower = digitChar d := by decide
  have upper : ∀ k : Fin 26, ∃ d < 32, digitValue? (Char.ofNat (0x41 + k)) = some d ∧
      (Char.ofNat (0x41 + k)).toLower = digitChar d := by decide
  have number : ∀ k : Fin 6, ∃ d < 32, digitValue? (Char.ofNat (0x32 + k)) = some d ∧
      (Char.ofNat (0x32 + k)).toLower = digitChar d := by decide
  let P (c : Char) := ∃ d < 32, digitValue? c = some d ∧ c.toLower = digitChar d
  rcases isDigit_iff.1 h with range | range | range
  · exact of_range (P := P) lower range.1 (by omega)
  · exact of_range (P := P) upper range.1 (by omega)
  · exact of_range (P := P) number range.1 (by omega)

theorem digitValue?_eq_some_iff : digitValue? c = some d ↔ d < 32 ∧ c.toLower = digitChar d := by
  constructor
  · intro value
    have digit : IsDigit c := isSome_digitValue?.1 (Option.isSome_iff_exists.2 ⟨d, value⟩)
    obtain ⟨d', lt, value', lower⟩ := digit.cases
    obtain rfl : d' = d := Option.some.inj (value'.symm.trans value)
    exact ⟨lt, lower⟩
  · rintro ⟨lt, lower⟩
    rw [← digitValue?_toLower, lower, digitValue?_digitChar lt]

theorem place_of_digitValue? (h : digitValue? c = some d) : place c = d := by
  obtain ⟨lt, lower⟩ := digitValue?_eq_some_iff.1 h
  rw [place, lower, idxOf_digitChar lt]

theorem digitValue?_of_isDigit (h : IsDigit c) : digitValue? c = some (place c) := by
  obtain ⟨d, -, value, -⟩ := h.cases
  rw [place_of_digitValue? value, value]

end Digits

/-! ### Texts -/

section Texts
variable {cs : List Char} {ds : List Nat} {u : Uuid}

/-- The values of digits are found with the text in lower case. -/
theorem mapM_digitValue? : cs.mapM digitValue? = some ds ↔
    (∀ d ∈ ds, d < 32) ∧ cs.map Char.toLower = ds.map digitChar := by
  rw [mapM_eq_some]
  induction cs generalizing ds with
  | nil => cases ds <;> simp
  | cons c cs ih =>
    cases ds with
    | nil => simp
    | cons d ds =>
      simp only [List.map_cons, List.cons.injEq, digitValue?_eq_some_iff, ih, List.forall_mem_cons]
      tauto

/-- The last digit alone says whether the number can be divided by four. -/
theorem ofDigits_mod_four {d : Nat} (h : ds.getLast? = some d) :
    Text.ofDigits 32 ds % 4 = d % 4 := by
  obtain ⟨front, rfl⟩ := List.getLast?_eq_some_iff.1 h
  rw [Text.ofDigits_append]
  omega

/-- What is read as an identifier is 26 digits of a number that can be divided by four. -/
theorem decode?_eq_some : decode? cs = some u ↔ ∃ ds, cs.mapM digitValue? = some ds ∧
    cs.length = 26 ∧ Text.ofDigits 32 ds % 4 = 0 ∧
    u = ⟨BitVec.ofNat 128 (Text.ofDigits 32 ds / 4)⟩ := by
  unfold decode?
  rw [length]
  constructor
  · intro h
    split at h
    · rename_i count
      split at h
      · rename_i ds digits
        dsimp only at h
        split at h
        · rename_i zeros
          exact ⟨ds, digits, count, zeros, (Option.some.inj h).symm⟩
        · cases h
      · cases h
    · cases h
  · rintro ⟨ds, digits, count, zeros, rfl⟩
    rw [if_pos count, digits]
    exact if_pos zeros

/-- A text names an identifier exactly if its lower case is the token of that. -/
theorem decode?_eq_some_iff : decode? cs = some u ↔ cs.map Char.toLower = encode u := by
  rw [decode?_eq_some, encode]
  constructor
  · rintro ⟨ds, digits, count, zeros, rfl⟩
    obtain ⟨small, lower⟩ := mapM_digitValue?.1 digits
    have width : ds.length = 26 := by
      have := congrArg List.length lower
      rwa [List.length_map, List.length_map, count, eq_comm] at this
    have bound : Text.ofDigits 32 ds < 32 ^ 26 := width ▸ Text.ofDigits_lt small
    have bits : (BitVec.ofNat 128 (Text.ofDigits 32 ds / 4)).toNat * 4 = Text.ofDigits 32 ds := by
      rw [BitVec.toNat_ofNat, Nat.mod_eq_of_lt (by omega)]
      omega
    have again : Text.positional 32 26 (Text.ofDigits 32 ds) = ds := by
      rw [← width, Text.positional_ofDigits small]
    rw [lower, bits, length, again]
  · intro lower
    have fits : u.bits.toNat * 4 < Nat.pow 32 26 := by
      have := u.bits.isLt
      change u.bits.toNat * 4 < 32 ^ 26
      omega
    have small : ∀ d ∈ Text.positional 32 26 (u.bits.toNat * 4), d < 32 :=
      fun d => Text.positional_lt (by decide)
    refine ⟨_, mapM_digitValue?.2 ⟨small, lower⟩, ?_, ?_, ?_⟩
    · have := congrArg List.length lower
      rwa [List.length_map, List.length_map, Text.positional_length] at this
    all_goals rw [Text.ofDigits_positional fits]
    · exact Nat.mul_mod_left _ _
    · rw [Nat.mul_div_cancel _ (by decide), BitVec.ofNat_toNat, BitVec.setWidth_eq]

/-- Which texts are read, without the encoding. -/
theorem isSome_decode? : (decode? cs).isSome ↔ IsToken cs := by
  rw [Option.isSome_iff_exists]
  constructor
  · rintro ⟨u, h⟩
    obtain ⟨ds, digits, count, zeros, -⟩ := decode?_eq_some.1 h
    have values := mapM_eq_some.1 digits
    refine ⟨count, fun c hc => ?_, fun c hc => ?_⟩
    · obtain ⟨d, -, value⟩ : ∃ d ∈ ds, some d = digitValue? c :=
        List.mem_map.1 (values ▸ List.mem_map_of_mem hc)
      exact isSome_digitValue?.1 (value ▸ rfl)
    · have last := congrArg List.getLast? values
      rw [List.getLast?_map, List.getLast?_map, hc] at last
      obtain ⟨d, hd, value⟩ := Option.map_eq_some_iff.1 last.symm
      rw [place_of_digitValue? value.symm, ← ofDigits_mod_four hd, zeros]
  · rintro ⟨count, digits, tail⟩
    have values : cs.mapM digitValue? = some (cs.map place) := by
      rw [mapM_eq_some, List.map_map]
      exact List.map_congr_left fun c hc => digitValue?_of_isDigit (digits c hc)
    obtain ⟨c, hc⟩ : ∃ c, cs.getLast? = some c := by
      rw [← Option.isSome_iff_exists, List.getLast?_isSome]
      rintro rfl
      cases count
    have last : (cs.map place).getLast? = some (place c) := by rw [List.getLast?_map, hc]; rfl
    have zeros : Text.ofDigits 32 (cs.map place) % 4 = 0 := by
      rw [ofDigits_mod_four last, tail c hc]
    exact ⟨_, decode?_eq_some.2 ⟨_, values, count, zeros, rfl⟩⟩

end Texts

theorem encode_injective : Function.Injective encode := fun u v h => by
  have same := decode?_encode u
  rw [h, decode?_encode v] at same
  exact (Option.some.inj same).symm

end Token

/-! ### Identifiers in texts, in values and in cells -/

namespace Ident
variable {kind : IdentKind} {id : Ident kind}

/-- A text names a thing exactly if its lower case is the text of that. -/
theorem parse?_eq_some_iff (named : kind.usesToken = true) {s : String} :
    parse? kind s = some id ↔ s.toLower = id.text := by
  have token : id.text.toList = Token.encode id.uuid := by
    rw [text, String.toList_ofList, chars, if_pos named]
  have lower : s.toLower.toList = s.toList.map Char.toLower := String.toList_map
  rw [← String.toList_inj, token, lower, ← Token.decode?_eq_some_iff, parse?, if_pos named,
    Option.map_eq_some_iff]
  constructor
  · rintro ⟨u, h, rfl⟩
    exact h
  · intro h
    exact ⟨id.uuid, h, rfl⟩

end Ident

/-- Tokens encode identifiers exactly, whatever the case of their letters. -/
theorem Token.encodes_exactly :
    (∀ u, (encode u).length = 26 ∧ ∀ c ∈ encode u, c ∈ alphabet) ∧
    (∀ cs u, decode? cs = some u ↔ cs.map Char.toLower = encode u) ∧
    (∀ cs, (decode? cs).isSome ↔ IsToken cs) ∧
    Function.Injective encode ∧
    ∀ kind : IdentKind, kind.usesToken = true → ∀ id : Ident kind,
      Ident.parse? kind id.text = some id ∧
      (Ident.decoder kind).ofText id.toJson.text = .ok id ∧
      (Ident.decoder kind).ofValue id.toJson = .ok id ∧
      id.toCell.readIdent kind = .ok id ∧
      ∀ s : String, Ident.parse? kind s = some id ↔ s.toLower = id.text := by
  refine ⟨fun u => ⟨?_, fun c hc => ?_⟩, fun _ _ => decode?_eq_some_iff, fun _ => isSome_decode?,
    encode_injective, fun kind named id => ?_⟩
  · rw [encode, List.length_map, Text.positional_length, length]
  · obtain ⟨d, hd, rfl⟩ := List.mem_map.1 hc
    exact digitChar_mem (Text.positional_lt (by decide) hd)
  · have read := reads_ident named id
    refine ⟨Ident.parse?_text named id, ?_, read .value trivial,
      Cell.readNamed_text (Ident.parse?_text named id), fun s => Ident.parse?_eq_some_iff named⟩
    rw [Json.Decoder.ofText_text]
    exact read (.text 0) (Json.Decoder.Origin.admits_text_zero.2 (Nat.zero_le _))

theorem Token.reads_upper_case : IdentKind.editor.usesToken = true ∧
    Ident.parse? .editor "AEBAGBAFAYDQQCIKBMGA2DQPCA" =
      some ⟨⟨0x0102030405060708090A0B0C0D0E0F10⟩⟩ := by
  refine ⟨rfl, ?_⟩
  obtain ⟨-, -, -, -, identifiers⟩ := Token.encodes_exactly
  obtain ⟨-, -, -, -, read⟩ := identifiers .editor rfl ⟨⟨0x0102030405060708090A0B0C0D0E0F10⟩⟩
  exact (read "AEBAGBAFAYDQQCIKBMGA2DQPCA").2 (by decide +kernel)

end Biblio
