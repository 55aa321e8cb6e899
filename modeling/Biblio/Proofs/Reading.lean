import Biblio.Proofs.Numbers

/-! Reading what was printed.

    The compact text of a value reads as the document of the value, whatever stands behind it, as
    long as that does not carry the value on: behind a value there is nothing, a comma or a bracket.
    This is proved for strings first and then for all values by induction on them. Doubles may be
    read as other doubles; a value without any is read as itself. -/

namespace Biblio

namespace Json

/-! ### Strings -/

section Strings

/-- Four hexadecimal digits are read back. -/
theorem hexUnit?_positional {n : Nat} (h : n < 0x10000) :
    ∃ a b c d, (Text.positional 16 4 n).map Text.hexChar = [a, b, c, d] ∧
      hexUnit? a b c d = some n := by
  have lt : ∀ x, x % 16 < 16 := fun x => Nat.mod_lt x (by decide)
  refine ⟨_, _, _, _, rfl, ?_⟩
  have value : Text.ofDigits 16 (Text.positional 16 4 n) = n := Text.ofDigits_positional h
  simp only [Text.positional, List.nil_append, List.cons_append] at value
  simp [hexUnit?, Text.hexValue?_hexChar, lt, value]

theorem characters?_char (c : Char) (us : List CodeUnit) :
    characters? (.char c :: us) = (characters? us).map (c :: ·) := rfl

/-- The escape of a control character is read back. -/
theorem characters?_escaped {c : Char} (h : c.toNat < 0x20) (us : List CodeUnit) :
    characters? (.escaped c.toNat :: us) = (characters? us).map (c :: ·) := by
  have low : isLowSurrogate c.toNat = false := by
    simp only [isLowSurrogate, Bool.and_eq_false_imp, decide_eq_true_eq, decide_eq_false_iff_not]
    omega
  have high : isHighSurrogate c.toNat = false := by
    simp only [isHighSurrogate, Bool.and_eq_false_imp, decide_eq_true_eq, decide_eq_false_iff_not]
    omega
  rw [characters?.eq_def]
  simp [low, high]

/-- A letter behind a backslash is read as what it stands for. -/
theorem readUnits_named {x c : Char} (h : unescape? x = some c) (cs : List Char) :
    readUnits ('\\' :: x :: cs) = (.char c :: (readUnits cs).1, (readUnits cs).2) := by
  have notHex : x ≠ 'u' := by
    rintro rfl
    cases h
  rw [readUnits.eq_def]
  split <;> grind

/-- A character that needs no escape is read as itself. -/
theorem readUnits_plain {c : Char} (quote : c ≠ '"') (backslash : c ≠ '\\')
    (plain : 0x20 ≤ c.toNat) (cs : List Char) :
    readUnits (c :: cs) = (.char c :: (readUnits cs).1, (readUnits cs).2) := by
  have visible : ¬c.toNat < 0x20 := by omega
  rw [readUnits.eq_def]
  split <;> simp_all

/-- A printed character is read as one code unit, which stands for it. -/
theorem readUnits_escape (c : Char) (cs : List Char) :
    ∃ u, readUnits (escape c ++ cs) = (u :: (readUnits cs).1, (readUnits cs).2) ∧
      ∀ us, characters? (u :: us) = (characters? us).map (c :: ·) := by
  have named : ∀ {x : Char}, escape c = ['\\', x] → unescape? x = some c →
      ∃ u, readUnits (escape c ++ cs) = (u :: (readUnits cs).1, (readUnits cs).2) ∧
        ∀ us, characters? (u :: us) = (characters? us).map (c :: ·) := fun escaped stands =>
    ⟨.char c, by rw [escaped]; exact readUnits_named stands cs, characters?_char c⟩
  by_cases quote : c = '"'
  · exact named (x := '"') (by simp [escape, quote]) (by simp [unescape?, quote])
  by_cases backslash : c = '\\'
  · exact named (x := '\\') (by simp [escape, backslash]) (by simp [unescape?, backslash])
  by_cases plain : 0x20 ≤ c.toNat
  · have itself : escape c = [c] := by simp [escape, quote, backslash, plain]
    exact ⟨.char c, by rw [itself]; exact readUnits_plain quote backslash plain cs,
      characters?_char c⟩
  have letter : ∀ {n : Nat}, c.toNat = n → some c = some (Char.ofNat n) := fun h => by
    rw [← h, Char.ofNat_toNat]
  by_cases backspace : c.toNat = 0x08
  · exact named (x := 'b') (by simp [escape, quote, backslash, backspace]) (letter backspace).symm
  by_cases tab : c.toNat = 0x09
  · exact named (x := 't') (by simp [escape, quote, backslash, tab]) (letter tab).symm
  by_cases newline : c.toNat = 0x0A
  · exact named (x := 'n') (by simp [escape, quote, backslash, newline]) (letter newline).symm
  by_cases formFeed : c.toNat = 0x0C
  · exact named (x := 'f') (by simp [escape, quote, backslash, formFeed]) (letter formFeed).symm
  by_cases carriage : c.toNat = 0x0D
  · exact named (x := 'r') (by simp [escape, quote, backslash, carriage]) (letter carriage).symm
  -- all other control characters are written as four hexadecimal digits
  obtain ⟨w, x, y, z, digits, unit⟩ := hexUnit?_positional (n := c.toNat) (by omega)
  have escaped : escape c = ['\\', 'u', w, x, y, z] := by
    simp [escape, quote, backslash, plain, backspace, tab, newline, formFeed, carriage, digits]
  refine ⟨.escaped c.toNat, ?_, characters?_escaped (by omega)⟩
  rw [escaped]
  simp [readUnits, unit]

/-- A printed string is read as its characters. -/
theorem readUnits_flatMap_escape (s : List Char) (rest : List Char) :
    ∃ us, readUnits (s.flatMap escape ++ '"' :: rest) = (us, .closed rest) ∧
      characters? us = some s := by
  induction s with
  | nil => exact ⟨[], rfl, rfl⟩
  | cons c cs ih =>
    obtain ⟨us, units, chars⟩ := ih
    obtain ⟨u, unit, char⟩ := readUnits_escape c (cs.flatMap escape ++ '"' :: rest)
    refine ⟨u :: us, ?_, by rw [char, chars]; rfl⟩
    rw [List.flatMap_cons, List.append_assoc, unit, units]

/-- A printed string is read behind its opening quote. -/
theorem readString_escape (s : String) (rest : List Char) :
    readString (s.toList.flatMap escape ++ '"' :: rest) = .text s rest := by
  obtain ⟨us, units, chars⟩ := readUnits_flatMap_escape s.toList rest
  simp only [readString, units, chars, String.ofList_toList]

end Strings

/-! ### Values -/

mutual

/-- There are no doubles in the value. -/
def IsIntegral : Json → Prop
  | .arr items => AllIntegral items
  | .obj members => MembersIntegral members
  | .real _ => False
  | .null | .bool _ | .int _ | .str _ => True

/-- There are no doubles in a list of values. -/
def AllIntegral : List Json → Prop
  | [] => True
  | item :: items => IsIntegral item ∧ AllIntegral items

/-- There are no doubles in the values of members. -/
def MembersIntegral : List (String × Json) → Prop
  | [] => True
  | (_, value) :: members => IsIntegral value ∧ MembersIntegral members

end

mutual

instance decidableIsIntegral : ∀ j : Json, Decidable (IsIntegral j)
  | .arr items => decidableAllIntegral items
  | .obj members => decidableMembersIntegral members
  | .real _ => .isFalse id
  | .null | .bool _ | .int _ | .str _ => .isTrue trivial

instance decidableAllIntegral : ∀ items : List Json, Decidable (AllIntegral items)
  | [] => .isTrue trivial
  | item :: items =>
    have := decidableIsIntegral item
    have := decidableAllIntegral items
    inferInstanceAs (Decidable (_ ∧ _))

instance decidableMembersIntegral : ∀ members : List (String × Json),
    Decidable (MembersIntegral members)
  | [] => .isTrue trivial
  | (_, value) :: members =>
    have := decidableIsIntegral value
    have := decidableMembersIntegral members
    inferInstanceAs (Decidable (_ ∧ _))

end

mutual

/-- The value with every double as it is read where it was printed. -/
def reread : Json → Json
  | .real d => .real (rereadDouble d)
  | .arr items => .arr (rereadItems items)
  | .obj members => .obj (rereadMembers members)
  | .null => .null
  | .bool b => .bool b
  | .int n => .int n
  | .str s => .str s

/-- Values with every double as it is read. -/
def rereadItems : List Json → List Json
  | [] => []
  | item :: items => reread item :: rereadItems items

/-- Members with every double as it is read. -/
def rereadMembers : List (String × Json) → List (String × Json)
  | [] => []
  | (key, value) :: members => (key, reread value) :: rereadMembers members

end

mutual

/-- Without doubles nothing changes. -/
theorem IsIntegral.reread : ∀ {j : Json}, IsIntegral j → reread j = j
  | .arr _, h => congrArg Json.arr (AllIntegral.reread h)
  | .obj _, h => congrArg Json.obj (MembersIntegral.reread h)
  | .null, _ | .bool _, _ | .int _, _ | .str _, _ => rfl

theorem AllIntegral.reread : ∀ {items : List Json}, AllIntegral items → rereadItems items = items
  | [], _ => rfl
  | _ :: _, h => congrArg₂ List.cons (IsIntegral.reread h.1) (AllIntegral.reread h.2)

theorem MembersIntegral.reread : ∀ {members : List (String × Json)}, MembersIntegral members →
    rereadMembers members = members
  | [], _ => rfl
  | (key, _) :: _, h =>
    congrArg₂ (fun v ms => (key, v) :: ms) (IsIntegral.reread h.1) (MembersIntegral.reread h.2)

end

theorem skipBlanks_number {c : Char} (h : c = '-' ∨ c.isDigit = true) (cs : List Char) :
    skipBlanks (c :: cs) = c :: cs := by
  have visible : (c = ' ' || c = '\n' || c = '\t' || c = '\r') = false := by
    rw [Bool.eq_false_iff]
    intro blank
    simp only [Bool.or_eq_true, decide_eq_true_eq] at blank
    rcases blank with ((rfl | rfl) | rfl) | rfl <;> rcases h with h | h <;> cases h
  simp [skipBlanks, visible]

/-- What begins with a sign or a digit is read as a number. -/
theorem readValue_number {c : Char} (h : c = '-' ∨ c.isDigit = true) (fuel : Nat)
    (cs : List Char) : readValue (fuel + 1) (c :: cs) = readNumber (c :: cs) := by
  have other : ∀ d : Char, d ≠ '-' → d.isDigit = false → c ≠ d := by
    rintro d hd hdigit rfl
    rcases h with h | h
    · exact hd h
    · rw [hdigit] at h
      cases h
  rw [readValue, skipBlanks_number h]
  split
  case h_8 heq =>
    cases heq
    rw [if_pos h]
  all_goals
    rename_i heq
    cases heq
    try exact absurd rfl (other _ (by decide) (by decide))

theorem ne_bracket_of_begins {c : Char} (h : c = '-' ∨ c.isDigit = true) : c ≠ ']' := by
  rintro rfl
  rcases h with h | h <;> cases h

/-- What is printed of a value begins with a character that is no blank and closes nothing. -/
theorem compact_eq_cons (j : Json) :
    ∃ c cs, j.compact = c :: cs ∧ c ≠ ']' ∧ ∀ rest, skipBlanks (c :: rest) = c :: rest := by
  cases j with
  | null => exact ⟨'n', _, rfl, by decide, fun _ => rfl⟩
  | bool b =>
    cases b
    · exact ⟨'f', _, rfl, by decide, fun _ => rfl⟩
    · exact ⟨'t', _, rfl, by decide, fun _ => rfl⟩
  | int n =>
    obtain ⟨c, cs, heq, begins⟩ := decimalInt_eq_cons n
    exact ⟨c, cs, heq, ne_bracket_of_begins begins, skipBlanks_number begins⟩
  | real d =>
    obtain ⟨c, cs, heq, begins⟩ := doubleChars_eq_cons d
    exact ⟨c, cs, heq, ne_bracket_of_begins begins, skipBlanks_number begins⟩
  | str s => exact ⟨'"', _, rfl, by decide, fun _ => rfl⟩
  | arr items => exact ⟨'[', _, rfl, by decide, fun _ => rfl⟩
  | obj members => exact ⟨'{', _, rfl, by decide, fun _ => rfl⟩

theorem quote_append (s : String) (rest : List Char) :
    quote s ++ rest = '"' :: (s.toList.flatMap escape ++ '"' :: rest) := by
  simp [quote]

theorem length_quote (s : String) : (quote s).length = (s.toList.flatMap escape).length + 2 := by
  simp [quote]

/-- An array that is not closed at once has items. -/
theorem readValue_bracket {c : Char} {cs : List Char} (other : c ≠ ']')
    (visible : skipBlanks (c :: cs) = c :: cs) {fuel : Nat} {items : List Document}
    {after : Option (List Char)} (h : readItems fuel (c :: cs) = (items, none, after)) :
    readValue (fuel + 1) ('[' :: c :: cs) = (.arr items none, after) := by
  have bracket : skipBlanks ('[' :: c :: cs) = '[' :: c :: cs := rfl
  simp [readValue, bracket, visible, other, h]

/-- An object that is not closed at once has members. -/
theorem readValue_brace {cs : List Char} {fuel : Nat} {members : List (Key × Document)}
    {after : Option (List Char)} (h : readMembers fuel ('"' :: cs) = (members, none, after)) :
    readValue (fuel + 1) ('{' :: '"' :: cs) = (.obj members none, after) := by
  have brace : skipBlanks ('{' :: '"' :: cs) = '{' :: '"' :: cs := rfl
  have mark : skipBlanks ('"' :: cs) = '"' :: cs := rfl
  simp [readValue, brace, mark, h]

/-- The last item of an array is read with the bracket behind it. -/
theorem readItems_last {cs rest : List Char} {fuel : Nat} {item : Document}
    (h : readValue fuel cs = (item, some (']' :: rest))) :
    readItems (fuel + 1) cs = ([item], none, some rest) := by
  have bracket : skipBlanks (']' :: rest) = ']' :: rest := rfl
  simp [readItems, h, bracket]

/-- Behind an item and a comma there are more. -/
theorem readItems_more {cs rest : List Char} {fuel : Nat} {item : Document}
    {items : List Document} {after : Option (List Char)}
    (h : readValue fuel cs = (item, some (',' :: rest)))
    (h' : readItems fuel rest = (items, none, after)) :
    readItems (fuel + 1) cs = (item :: items, none, after) := by
  have comma : skipBlanks (',' :: rest) = ',' :: rest := rfl
  simp [readItems, h, comma, h']

/-- A key is read with the member that it begins. -/
theorem readMembers_key (key : String) (cs : List Char) (fuel : Nat) :
    readMembers (fuel + 1) (quote key ++ ':' :: cs) = readMember fuel (.name key) (':' :: cs) := by
  have mark : ∀ cs, skipBlanks ('"' :: cs) = '"' :: cs := fun _ => rfl
  simp [quote_append, readMembers, mark, readString_escape]

/-- The last member of an object is read with the brace behind it. -/
theorem readMember_last {cs rest : List Char} {fuel : Nat} {key : Key} {value : Document}
    (h : readValue fuel cs = (value, some ('}' :: rest))) :
    readMember (fuel + 1) key (':' :: cs) = ([(key, value)], none, some rest) := by
  have colon : skipBlanks (':' :: cs) = ':' :: cs := rfl
  have brace : skipBlanks ('}' :: rest) = '}' :: rest := rfl
  simp [readMember, colon, h, brace]

/-- Behind a member and a comma there are more. -/
theorem readMember_more {cs rest : List Char} {fuel : Nat} {key : Key} {value : Document}
    {members : List (Key × Document)} {after : Option (List Char)}
    (h : readValue fuel cs = (value, some (',' :: rest)))
    (h' : readMembers fuel rest = (members, none, after)) :
    readMember (fuel + 1) key (':' :: cs) = ((key, value) :: members, none, after) := by
  have colon : skipBlanks (':' :: cs) = ':' :: cs := rfl
  have comma : skipBlanks (',' :: rest) = ',' :: rest := rfl
  simp [readMember, colon, h, comma, h']

/-- A number that is printed is read if there is a character for it. -/
theorem readValue_of_readNumber {cs rest : List Char} {fuel : Nat} {d : Document}
    (begins : ∃ c cs', cs = c :: cs' ∧ (c = '-' ∨ c.isDigit = true)) (enough : cs.length ≤ fuel)
    (h : readNumber (cs ++ rest) = (d, some rest)) :
    readValue fuel (cs ++ rest) = (d, some rest) := by
  obtain ⟨c, cs, rfl, begins⟩ := begins
  obtain ⟨fuel, rfl⟩ := Nat.exists_eq_add_of_le' (Nat.lt_of_lt_of_le (Nat.zero_lt_succ _) enough)
  rw [List.cons_append, readValue_number begins]
  exact h

mutual

/-- The text of a value is read as the value. -/
theorem readValue_compact : ∀ (j : Json) {fuel : Nat} {rest : List Char},
    j.compact.length ≤ fuel → Stops rest →
      readValue fuel (j.compact ++ rest) = (.ofJson j.reread, some rest)
  | .null, fuel + 1, _, _, _ => rfl
  | .bool true, fuel + 1, _, _, _ => rfl
  | .bool false, fuel + 1, _, _, _ => rfl
  | .int n, _, _, enough, stops =>
    readValue_of_readNumber (decimalInt_eq_cons n) enough (readNumber_decimalInt n stops)
  | .real d, _, _, enough, stops =>
    readValue_of_readNumber (doubleChars_eq_cons d) enough (readNumber_doubleChars d stops)
  | .str s, fuel + 1, rest, _, _ => by
    have mark : ∀ cs, skipBlanks ('"' :: cs) = '"' :: cs := fun _ => rfl
    simp [compact, quote_append, readValue, mark, readString_escape, reread, Document.ofJson]
  | .arr [], fuel + 1, _, _, _ => rfl
  | .arr (item :: items), fuel + 1, rest, enough, _ => by
    have fits : (compactItems (item :: items)).length < fuel := by
      simp only [compact, List.length_append, List.length_cons] at enough
      omega
    have reading := readItems_compact (item :: items) (List.cons_ne_nil _ _) rest fits
    obtain ⟨c, cs, heq, other, visible⟩ := compact_eq_cons item
    rw [compact, List.append_assoc, List.cons_append, List.singleton_append]
    simp only [compactItems, heq, List.cons_append] at reading ⊢
    exact readValue_bracket other (visible _) reading
  | .obj [], fuel + 1, _, _, _ => rfl
  | .obj ((key, value) :: members), fuel + 1, rest, enough, _ => by
    have fits : (compactMembers ((key, value) :: members)).length ≤ fuel := by
      simp only [compact, List.length_append, List.length_cons] at enough
      omega
    have reading := readMembers_compact ((key, value) :: members) (List.cons_ne_nil _ _) rest fits
    rw [compact, List.append_assoc, List.cons_append, List.singleton_append]
    simp only [compactMembers, quote, List.append_assoc, List.cons_append] at reading ⊢
    exact readValue_brace reading

/-- The texts of items and the bracket behind them are read as the items. -/
theorem readItems_compact : ∀ (items : List Json), items ≠ [] →
    ∀ {fuel : Nat} (rest : List Char), (compactItems items).length < fuel →
      readItems fuel (compactItems items ++ ']' :: rest) =
        (Document.ofItems (rereadItems items), none, some rest)
  | [], h, _, _, _ => absurd rfl h
  | [item], _, fuel + 1, rest, enough => by
    simp only [compactItems, List.isEmpty_nil, if_true, List.append_nil] at enough ⊢
    exact readItems_last (readValue_compact item (by omega) (stops_bracket rest))
  | item :: next :: items, _, fuel + 1, rest, enough => by
    rw [compactItems] at enough ⊢
    simp only [List.isEmpty_cons, Bool.false_eq_true, if_false, List.append_assoc,
      List.singleton_append, List.length_append, List.length_cons] at enough ⊢
    exact readItems_more (readValue_compact item (by omega) (stops_comma _))
      (readItems_compact (next :: items) (List.cons_ne_nil _ _) _ (by omega))

/-- The texts of members and the brace behind them are read as the members. -/
theorem readMembers_compact : ∀ (members : List (String × Json)), members ≠ [] →
    ∀ {fuel : Nat} (rest : List Char), (compactMembers members).length ≤ fuel →
      readMembers fuel (compactMembers members ++ '}' :: rest) =
        (Document.ofMembers (rereadMembers members), none, some rest)
  | [], h, _, _, _ => absurd rfl h
  | [(key, value)], _, fuel, rest, enough => by
    simp only [compactMembers, List.isEmpty_nil, if_true, List.append_nil, List.append_assoc,
      List.cons_append, List.length_append, List.length_cons, length_quote] at enough ⊢
    obtain ⟨fuel, rfl⟩ := Nat.exists_eq_add_of_le' (show 2 ≤ fuel by omega)
    rw [readMembers_key]
    exact readMember_last (readValue_compact value (by omega) (stops_brace rest))
  | (key, value) :: next :: members, _, fuel, rest, enough => by
    rw [compactMembers] at enough ⊢
    simp only [List.isEmpty_cons, Bool.false_eq_true, if_false, List.append_assoc,
      List.cons_append, List.length_append, List.length_cons, length_quote] at enough ⊢
    obtain ⟨fuel, rfl⟩ := Nat.exists_eq_add_of_le' (show 2 ≤ fuel by omega)
    rw [readMembers_key]
    exact readMember_more (readValue_compact value (by omega) (stops_comma _))
      (readMembers_compact (next :: members) (List.cons_ne_nil _ _) _ (by omega))

end

/-- A printed text reads as the document of the value, with nothing behind it. -/
theorem Document.ofText_text (j : Json) : Document.ofText j.text = (.ofJson j.reread, none) := by
  have enough : j.compact.length ≤ 3 * j.compact.length + 3 := by omega
  have reading := readValue_compact j enough stops_nil
  rw [List.append_nil] at reading
  simp [Document.ofText, text, reading, skipBlanks]

end Json

end Biblio
