import Mathlib
import Biblio.ExternalId

/-! The languages of external identifiers.

    The identifiers of a registry are a language, put together from words and from runs of
    characters of one class. What counts as a digit is a parameter of the language: the registries
    count with the ten digits of ASCII, but the identifiers that are well formed here are those with
    digits of any script. That is the only difference, so an identifier without digits of other
    scripts is well formed exactly if it is in the language of its registry. -/

namespace Biblio.ExternalId

/-! ### Words and runs of characters -/

/-- This word and no other. -/
def word (s : String) : Language Char := {s.toList}

/-- Words of these lengths in which every character has the property. -/
def run (length : Nat → Prop) (P : Char → Prop) : Language Char :=
  {cs : List Char | length cs.length ∧ ∀ c ∈ cs, P c}

/-- Words of this length in which every character has the property. -/
def exactly (n : Nat) : (Char → Prop) → Language Char := run (· = n)

/-- Words that are not empty and in which every character has the property. -/
def oneOrMore : (Char → Prop) → Language Char := run (0 < ·)

/-- Words in which every character has the property. -/
def wordsOf (P : Char → Prop) : Language Char := {cs : List Char | ∀ c ∈ cs, P c}

section Languages
variable {P Q : Char → Prop} {length : Nat → Prop} {l m : Language Char} {n : Nat} {s : String}
variable {cs : List Char}

theorem mem_word_mul : cs ∈ word s * l ↔ ∃ rest ∈ l, s.toList ++ rest = cs := by
  constructor
  · rintro ⟨_, rfl, rest, h, rfl⟩
    exact ⟨rest, h, rfl⟩
  · rintro ⟨rest, h, rfl⟩
    exact ⟨_, rfl, rest, h, rfl⟩

theorem mem_exactly_one : cs ∈ exactly 1 P ↔ ∃ c, cs = [c] ∧ P c := by
  constructor
  · rintro ⟨one, all⟩
    obtain ⟨c, rfl⟩ := List.length_eq_one_iff.1 one
    exact ⟨c, rfl, all c List.mem_cons_self⟩
  · rintro ⟨c, rfl, h⟩
    exact ⟨rfl, List.forall_mem_singleton.2 h⟩

theorem exactly_zero : exactly 0 P = 1 := by
  ext cs
  constructor
  · rintro ⟨none, -⟩
    exact List.length_eq_zero_iff.1 none
  · rintro rfl
    exact ⟨rfl, fun _ h => nomatch h⟩

theorem exactly_succ : exactly (n + 1) P = exactly 1 P * exactly n P := by
  ext cs
  constructor
  · rintro ⟨count, all⟩
    obtain ⟨c, rest, rfl⟩ := List.exists_cons_of_length_eq_add_one count
    obtain ⟨first, others⟩ := List.forall_mem_cons.1 all
    exact ⟨[c], mem_exactly_one.2 ⟨c, rfl, first⟩, rest, ⟨Nat.succ.inj count, others⟩, rfl⟩
  · rintro ⟨a, ha, rest, ⟨count, others⟩, rfl⟩
    obtain ⟨c, rfl, first⟩ := mem_exactly_one.1 ha
    exact ⟨congrArg Nat.succ count, List.forall_mem_cons.2 ⟨first, others⟩⟩

/-! What is left of a language without the words that have other characters. -/

theorem mul_inf_wordsOf : (l * m) ⊓ wordsOf P = (l ⊓ wordsOf P) * (m ⊓ wordsOf P) := by
  ext cs
  constructor
  · rintro ⟨⟨a, ha, b, hb, rfl⟩, all⟩
    obtain ⟨pa, pb⟩ := List.forall_mem_append.1 all
    exact ⟨a, ⟨ha, pa⟩, b, ⟨hb, pb⟩, rfl⟩
  · rintro ⟨a, ⟨ha, pa⟩, b, ⟨hb, pb⟩, rfl⟩
    exact ⟨⟨a, ha, b, hb, rfl⟩, List.forall_mem_append.2 ⟨pa, pb⟩⟩

theorem pow_inf_wordsOf : (l ^ n) ⊓ wordsOf P = (l ⊓ wordsOf P) ^ n := by
  induction n with
  | zero =>
    rw [pow_zero, pow_zero, inf_eq_left]
    rintro _ rfl c hc
    cases hc
  | succ n ih => rw [pow_succ, pow_succ, mul_inf_wordsOf, ih]

theorem word_inf_wordsOf (h : ∀ c ∈ s.toList, P c) : word s ⊓ wordsOf P = word s := by
  rw [inf_eq_left]
  rintro _ rfl
  exact h

theorem run_inf_wordsOf : run length P ⊓ wordsOf Q = run length fun c => P c ∧ Q c := by
  ext cs
  exact ⟨fun ⟨⟨count, p⟩, q⟩ => ⟨count, fun c hc => ⟨p c hc, q c hc⟩⟩,
    fun ⟨count, pq⟩ => ⟨⟨count, fun c hc => (pq c hc).1⟩, fun c hc => (pq c hc).2⟩⟩

end Languages

/-! ### The registries -/

/-- The ten digits of ASCII. -/
def IsAsciiDigit (c : Char) : Prop := '0' ≤ c ∧ c ≤ '9'

/-- The digits of every script. -/
def IsDigit (c : Char) : Prop := Text.isDecimalDigit c = true

/-- The hexadecimal digits, with letters in lower case. -/
def IsHexDigit (c : Char) : Prop := IsAsciiDigit c ∨ ('a' ≤ c ∧ c ≤ 'f')

/-- The characters that the languages have besides their digits. -/
def IsSign (c : Char) : Prop := c ∈ "-CMPQX".toList ∨ IsHexDigit c

instance : DecidablePred IsAsciiDigit := fun c => inferInstanceAs (Decidable ('0' ≤ c ∧ c ≤ '9'))

instance : DecidablePred IsDigit := fun c =>
  inferInstanceAs (Decidable (Text.isDecimalDigit c = true))

instance : DecidablePred IsHexDigit := fun c =>
  inferInstanceAs (Decidable (IsAsciiDigit c ∨ ('a' ≤ c ∧ c ≤ 'f')))

instance : DecidablePred IsSign := fun c =>
  inferInstanceAs (Decidable (c ∈ "-CMPQX".toList ∨ IsHexDigit c))

/-- The language of a registry that counts with these digits. The check character of a linking ISSN
    and the digits of digests are of ASCII whatever the others are. -/
def grammar (digit : Char → Prop) : ExternalIdKind → Language Char
  | .doi => word "10." * run (fun n => 3 ≤ n ∧ n ≤ 6) digit * word "/" * oneOrMore (· ≠ '\n')
  | .issnl => exactly 4 digit * word "-" * exactly 3 digit *
      exactly 1 fun c => IsAsciiDigit c ∨ c = 'X'
  | .orcid => (exactly 4 digit * word "-") ^ 3 * exactly 3 digit *
      exactly 1 fun c => digit c ∨ c = 'X'
  | .wikidataQid => word "Q" * oneOrMore digit
  | .pmid => oneOrMore digit
  | .pmcid => word "PMC" * oneOrMore digit
  | .md5 => exactly 32 IsHexDigit
  | .sha1 => exactly 40 IsHexDigit
  | .sha256 => exactly 64 IsHexDigit

/-! ### Well-formed identifiers -/

theorem isAsciiDigit_iff {c : Char} : Text.isAsciiDigit c = true ↔ IsAsciiDigit c := by
  have codes : IsAsciiDigit c ↔ 0x30 ≤ c.toNat ∧ c.toNat ≤ 0x39 := Iff.rfl
  rw [codes, Text.isAsciiDigit, Bool.and_eq_true, decide_eq_true_iff, decide_eq_true_iff]
  omega

theorem isLowerHex_iff {c : Char} : isLowerHex c = true ↔ IsHexDigit c := by
  rw [isLowerHex, Bool.or_eq_true, Bool.and_eq_true, isAsciiDigit_iff, decide_eq_true_iff,
    decide_eq_true_iff, IsHexDigit]

section Classes
variable {ps qs : List (Char → Bool)} {p : Char → Bool} {n : Nat} {cs : List Char}

/-- Words with one character of each class. -/
def classes (ps : List (Char → Bool)) : Language Char := {cs : List Char | fits ps cs = true}

theorem classes_nil : classes [] = 1 := by
  ext cs
  cases cs with
  | nil => exact ⟨fun _ => rfl, fun _ => rfl⟩
  | cons c cs =>
    exact ⟨fun h => (nomatch (h : false = true)), fun h => (nomatch (h : c :: cs = []))⟩

theorem classes_cons : classes (p :: ps) = (exactly 1 fun c => p c = true) * classes ps := by
  ext cs
  constructor
  · intro h
    cases cs with
    | nil => exact nomatch (h : false = true)
    | cons c cs =>
      obtain ⟨first, others⟩ := Bool.and_eq_true_iff.1 (h : (p c && fits ps cs) = true)
      exact ⟨[c], mem_exactly_one.2 ⟨c, rfl, first⟩, cs, others, rfl⟩
  · rintro ⟨a, ha, rest, others, rfl⟩
    obtain ⟨c, rfl, first⟩ := mem_exactly_one.1 ha
    exact Bool.and_eq_true_iff.2 ⟨first, others⟩

theorem classes_append : classes (ps ++ qs) = classes ps * classes qs := by
  induction ps with
  | nil => rw [List.nil_append, classes_nil, one_mul]
  | cons p ps ih => rw [List.cons_append, classes_cons, classes_cons, ih, mul_assoc]

theorem classes_replicate : classes (List.replicate n p) = exactly n fun c => p c = true := by
  induction n with
  | zero => rw [List.replicate_zero, classes_nil, exactly_zero]
  | succ n ih => rw [List.replicate_succ, classes_cons, ih, ← exactly_succ]

end Classes

theorem isNumber_iff {cs : List Char} : isNumber cs = true ↔ cs ∈ oneOrMore IsDigit := by
  have some : cs ≠ [] ↔ 0 < cs.length := List.length_pos_iff.symm
  change _ ↔ 0 < cs.length ∧ ∀ c ∈ cs, Text.isDecimalDigit c = true
  rw [← some, isNumber, Bool.and_eq_true, List.all_eq_true]
  simp

theorem isLettersAndNumber_iff {s : String} {cs : List Char} :
    isLettersAndNumber s.toList cs = true ↔ cs ∈ word s * oneOrMore IsDigit := by
  rw [mem_word_mul, isLettersAndNumber, Bool.and_eq_true, beq_iff_eq]
  constructor
  · rintro ⟨letters, number⟩
    have whole := List.take_append_drop s.toList.length cs
    rw [letters] at whole
    exact ⟨_, isNumber_iff.1 number, whole⟩
  · rintro ⟨rest, number, rfl⟩
    rw [List.take_left, List.drop_left]
    exact ⟨rfl, isNumber_iff.2 number⟩

theorem mem_doi {digit : Char → Prop} {cs : List Char} : cs ∈ grammar digit .doi ↔
    ∃ registrant suffix, cs = "10.".toList ++ registrant ++ '/' :: suffix ∧
      registrant ∈ run (fun n => 3 ≤ n ∧ n ≤ 6) digit ∧ suffix ∈ oneOrMore (· ≠ '\n') := by
  rw [grammar, mul_assoc, mul_assoc, mem_word_mul]
  constructor
  · rintro ⟨_, ⟨registrant, number, _, ⟨_, rfl, suffix, rest, rfl⟩, rfl⟩, rfl⟩
    exact ⟨registrant, suffix, (List.append_assoc _ _ _).symm, number, rest⟩
  · rintro ⟨registrant, suffix, rfl, number, rest⟩
    exact ⟨_, ⟨registrant, number, _, ⟨_, rfl, suffix, rest, rfl⟩, rfl⟩,
      (List.append_assoc _ _ _).symm⟩

/-- The registrant of a DOI ends where its digits end, which is at the slash. -/
theorem isDoi_iff {cs : List Char} : isDoi cs = true ↔ cs ∈ grammar IsDigit .doi := by
  rw [mem_doi]
  constructor
  · intro h
    unfold isDoi at h
    split at h
    · rename_i rest
      dsimp only at h
      split at h
      · rename_i suffix behind
        simp only [Bool.and_eq_true, decide_eq_true_eq, Bool.not_eq_true',
          List.isEmpty_eq_false_iff, List.all_eq_true, bne_iff_ne] at h
        obtain ⟨⟨⟨least, most⟩, some⟩, line⟩ := h
        have whole := List.takeWhile_append_dropWhile (p := Text.isDecimalDigit) (l := rest)
        rw [behind] at whole
        refine ⟨rest.takeWhile Text.isDecimalDigit, suffix, ?_, ⟨⟨least, most⟩, fun c hc => ?_⟩,
          List.length_pos_iff.2 some, line⟩
        · rw [List.append_assoc, whole]
          rfl
        · exact List.all_eq_true.1 List.all_takeWhile c hc
      · cases h
    · cases h
  · rintro ⟨registrant, suffix, rfl, ⟨⟨least, most⟩, digits⟩, some, line⟩
    have slash : Text.isDecimalDigit '/' = false := by decide
    have taken : (registrant ++ '/' :: suffix).takeWhile Text.isDecimalDigit = registrant := by
      rw [List.takeWhile_append_of_pos digits, List.takeWhile_cons_of_neg (by simp [slash]),
        List.append_nil]
    have dropped : (registrant ++ '/' :: suffix).dropWhile Text.isDecimalDigit = '/' :: suffix := by
      rw [List.dropWhile_append_of_pos digits, List.dropWhile_cons_of_neg (by simp [slash])]
    change isDoi ('1' :: '0' :: '.' :: (registrant ++ '/' :: suffix)) = true
    unfold isDoi
    simp only [taken, dropped, Bool.and_eq_true, decide_eq_true_eq, Bool.not_eq_true',
      List.isEmpty_eq_false_iff, List.all_eq_true, bne_iff_ne]
    exact ⟨⟨⟨least, most⟩, List.length_pos_iff.1 some⟩, line⟩

theorem exactly_only {s : String} {c : Char} (h : s.toList = [c]) :
    (exactly 1 fun d => only c d = true) = word s := by
  ext cs
  rw [mem_exactly_one]
  simp only [only, beq_iff_eq, exists_eq_right]
  exact h ▸ Iff.rfl

theorem exactly_orX {p : Char → Bool} {P : Char → Prop} (h : ∀ c, p c = true ↔ P c) :
    (exactly 1 fun c => orX p c = true) = exactly 1 fun c => P c ∨ c = 'X' := by
  simp only [orX, Bool.or_eq_true, beq_iff_eq, h]

theorem classes_issn : classes (fourDigits ++ only '-' :: threeDigits ++ [orX Text.isAsciiDigit]) =
    grammar IsDigit .issnl := by
  simp only [classes_append, classes_cons, classes_nil, mul_one, fourDigits, threeDigits,
    classes_replicate, exactly_only (s := "-") (c := '-') rfl,
    exactly_orX fun _ => isAsciiDigit_iff, grammar, mul_assoc]
  rfl

theorem classes_orcid : classes (fourDigits ++ only '-' :: fourDigits ++ only '-' :: fourDigits ++
    only '-' :: threeDigits ++ [orX Text.isDecimalDigit]) = grammar IsDigit .orcid := by
  have three (l : Language Char) : l ^ 3 = l * l * l := by rw [pow_succ, pow_two]
  simp only [classes_append, classes_cons, classes_nil, mul_one, fourDigits, threeDigits,
    classes_replicate, exactly_only (s := "-") (c := '-') rfl, exactly_orX fun _ => Iff.rfl,
    grammar, three, mul_assoc]
  rfl

theorem classes_digest (width : Nat) :
    classes (List.replicate width isLowerHex) = exactly width IsHexDigit := by
  rw [classes_replicate]
  simp only [isLowerHex_iff]

/-- The identifiers that are well formed are those with digits of any script. -/
theorem admits_iff {kind : ExternalIdKind} {cs : List Char} :
    admits kind cs = true ↔ cs ∈ grammar IsDigit kind := by
  cases kind with
  | doi => exact isDoi_iff
  | issnl =>
    rw [← classes_issn]
    rfl
  | orcid =>
    rw [← classes_orcid]
    rfl
  | wikidataQid => exact isLettersAndNumber_iff (s := "Q")
  | pmid => exact isNumber_iff
  | pmcid => exact isLettersAndNumber_iff (s := "PMC")
  | md5 | sha1 | sha256 =>
    rw [grammar, ← classes_digest]
    rfl

/-! ### Digits of other scripts -/

section Scripts
variable {c : Char} {cs : List Char} {kind : ExternalIdKind} {digit digit' P : Char → Prop}

theorem isAsciiDigit_iff_isDigit : IsAsciiDigit c ↔ IsDigit c ∧ c.toNat < 128 := by
  constructor
  · intro h
    have le : c.toNat ≤ 0x39 := h.2
    exact ⟨Text.isDecimalDigit_of_isAsciiDigit (isAsciiDigit_iff.2 h), by omega⟩
  · rintro ⟨digit, ascii⟩
    obtain ⟨z, mem, range⟩ := List.any_eq_true.1 digit
    have others : ∀ z ∈ Text.digitZeros, z = 0x30 ∨ 128 ≤ z := by decide
    rw [Bool.and_eq_true, decide_eq_true_iff, decide_eq_true_iff] at range
    have first : 0x30 ≤ c.toNat ∧ c.toNat ≤ 0x39 := by
      have := others z mem
      omega
    exact first

theorem lt_of_isSign (c : Char) (h : IsSign c) : c.toNat < 128 := by
  have signs : ∀ c ∈ "-CMPQX".toList, c.toNat < 128 := by simp
  rcases h with sign | digit | letter
  · exact signs c sign
  · exact (isAsciiDigit_iff_isDigit.1 digit).2
  · have le : c.toNat ≤ 0x66 := letter.2
    omega

/-- Only the digits are left out of the language of a registry with the words that have characters
    other than these. -/
theorem grammar_inf_wordsOf (other : kind ≠ .doi) (digits : ∀ c, digit c ∧ P c ↔ digit' c)
    (signs : ∀ c, IsSign c → P c) : grammar digit kind ⊓ wordsOf P = grammar digit' kind := by
  have hexadecimal (c : Char) : IsHexDigit c ∧ P c ↔ IsHexDigit c :=
    and_iff_left_of_imp fun h => signs c (.inr h)
  have x (c : Char) : c = 'X' ∧ P c ↔ c = 'X' :=
    and_iff_left_of_imp fun h => signs c (.inl (h ▸ by decide))
  have ascii (c : Char) : IsAsciiDigit c ∧ P c ↔ IsAsciiDigit c :=
    and_iff_left_of_imp fun h => signs c (.inr (.inl h))
  have words {s : String} (h : ∀ c ∈ s.toList, c ∈ "-CMPQX".toList) : word s ⊓ wordsOf P = word s :=
    word_inf_wordsOf fun c hc => signs c (.inl (h c hc))
  cases kind with
  | doi => exact absurd rfl other
  | issnl =>
    simp only [grammar, mul_inf_wordsOf, exactly, run_inf_wordsOf, or_and_right, digits, ascii, x,
      words (s := "-") (by simp)]
  | orcid =>
    simp only [grammar, mul_inf_wordsOf, pow_inf_wordsOf, exactly, run_inf_wordsOf, or_and_right,
      digits, x, words (s := "-") (by simp)]
  | wikidataQid =>
    simp only [grammar, mul_inf_wordsOf, oneOrMore, run_inf_wordsOf, digits,
      words (s := "Q") (by simp)]
  | pmid => simp only [grammar, oneOrMore, run_inf_wordsOf, digits]
  | pmcid =>
    simp only [grammar, mul_inf_wordsOf, oneOrMore, run_inf_wordsOf, digits,
      words (s := "PMC") (by simp)]
  | md5 | sha1 | sha256 => simp only [grammar, exactly, run_inf_wordsOf, hexadecimal]

/-- The part of an identifier that is counted: of a DOI what stands in front of the slash, of the
    others all. -/
def counted : ExternalIdKind → List Char → List Char
  | .doi, cs => cs.takeWhile (· ≠ '/')
  | _, cs => cs

/-- An identifier is in the language of its registry if it is well formed and has no digits of other
    scripts where the registry counts. -/
theorem mem_grammar_iff : cs ∈ grammar IsAsciiDigit kind ↔
    cs ∈ grammar IsDigit kind ∧ ∀ c ∈ counted kind cs, c.toNat < 128 := by
  by_cases other : kind = .doi
  · subst other
    have front (registrant suffix : List Char) (digits : ∀ c ∈ registrant, IsDigit c) :
        counted .doi ("10.".toList ++ registrant ++ '/' :: suffix) =
          "10.".toList ++ registrant := by
      have before : ∀ c ∈ "10.".toList ++ registrant, decide (c ≠ '/') = true := by
        refine List.forall_mem_append.2 ⟨by simp, fun c hc => decide_eq_true ?_⟩
        rintro rfl
        exact absurd (digits _ hc) (by decide)
      rw [counted, List.takeWhile_append_of_pos before, List.takeWhile_cons_of_neg (by decide),
        List.append_nil]
    rw [mem_doi, mem_doi]
    constructor
    · rintro ⟨registrant, suffix, rfl, ⟨count, ascii⟩, line⟩
      have digits c (hc : c ∈ registrant) := isAsciiDigit_iff_isDigit.1 (ascii c hc)
      refine ⟨⟨registrant, suffix, rfl, ⟨count, fun c hc => (digits c hc).1⟩, line⟩, ?_⟩
      rw [front registrant suffix fun c hc => (digits c hc).1]
      exact List.forall_mem_append.2 ⟨by simp, fun c hc => (digits c hc).2⟩
    · rintro ⟨⟨registrant, suffix, rfl, ⟨count, digits⟩, line⟩, ascii⟩
      rw [front registrant suffix digits] at ascii
      refine ⟨registrant, suffix, rfl, ⟨count, fun c hc => ?_⟩, line⟩
      exact isAsciiDigit_iff_isDigit.2 ⟨digits c hc, ascii c (List.mem_append_right _ hc)⟩
  · have same : counted kind cs = cs := by
      cases kind <;> first | rfl | exact absurd rfl other
    rw [same, ← grammar_inf_wordsOf other (fun _ => isAsciiDigit_iff_isDigit.symm) lt_of_isSign]
    rfl

end Scripts

/-- The characters that end a line. -/
def lineBreaks : List Char := ['\n', '\x0B', '\x0C', '\r', '\u0085', '\u2028', '\u2029']

/-- What is well formed is the language of the registry, but for digits of other scripts. -/
theorem isWellFormed_iff_grammar (x : ExternalId) :
    (x.isWellFormed = true ↔ x.value.toList ∈ grammar IsDigit x.kind) ∧
    (x.value.toList ∈ grammar IsAsciiDigit x.kind ↔
      x.isWellFormed = true ∧ ∀ c ∈ counted x.kind x.value.toList, c.toNat < 128) ∧
    (x.kind ≠ .doi → x.isWellFormed = true →
      ∀ c ∈ x.value.toList, (IsDigit c ∨ IsSign c) ∧ c ∉ lineBreaks) := by
  refine ⟨admits_iff, ?_, fun other wellFormed c hc => ?_⟩
  · rw [isWellFormed, admits_iff]
    exact mem_grammar_iff
  · have plain : x.value.toList ∈
        grammar IsDigit x.kind ⊓ wordsOf fun c => IsDigit c ∨ IsSign c := by
      rw [grammar_inf_wordsOf other (fun _ => and_iff_left_of_imp .inl) fun _ => .inr]
      exact admits_iff.1 wellFormed
    have invisible : lineBreaks.all (fun c => ¬(IsDigit c ∨ IsSign c)) = true := by decide
    refine ⟨plain.2 c hc, fun ends => ?_⟩
    exact of_decide_eq_true (List.all_eq_true.1 invisible c ends) (plain.2 c hc)

/-- A linking ISSN has no line break, whatever scripts its digits are of. -/
theorem mixed_issn_isWellFormed_iff_grammar : ExternalIdKind.issnl ≠ .doi ∧
    (⟨.issnl, "१२३४-५६७X"⟩ : ExternalId).isWellFormed = true ∧ '\n' ∉ "१२३४-५६७X".toList := by
  have wellFormed : (⟨.issnl, "१२३४-५६७X"⟩ : ExternalId).isWellFormed = true := by decide
  obtain ⟨-, -, plain⟩ := isWellFormed_iff_grammar ⟨.issnl, "१२३४-५६७X"⟩
  refine ⟨by decide, wellFormed, fun h => ?_⟩
  exact (plain (by decide) wellFormed '\n' h).2 (by decide)

/-- Numbers in the digits of another script are well formed, though no registry counts in them. -/
theorem foreign_number_isWellFormed : (⟨.pmid, "१२३"⟩ : ExternalId).isWellFormed = true ∧
    "१२३".toList ∉ grammar IsAsciiDigit .pmid := by
  refine ⟨by decide, fun ⟨_, digits⟩ => ?_⟩
  exact absurd (digits '१' (by decide)) (by decide)

end Biblio.ExternalId
