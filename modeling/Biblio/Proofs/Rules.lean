import Biblio.Entity.Validation
import Mathlib.Data.List.Forall2
import Mathlib.Data.List.Nodup

/-! The rules of bodies, and what is said of those that break them.

    The rules are laid down here without the checks, each with the fault that stands for it. Bodies
    are checked list by list, and no check stops at the first fault or keeps another one from being
    made: what is reported is a full account, with one entry for each rule that is broken at each
    place. -/

namespace Biblio

/-! ### Rules -/

/-- The rules that bodies obey by themselves. Those about the items of a list have a place. -/
inductive Rule where
  | title
  | name
  | releaseType
  | releaseYear
  | role (i : Nat)
  | credit (i : Nat)
  | citation (i : Nat)
  | digest
  | url (i : Nat)
  /-- The release at this place is named nowhere before. -/
  | copy (i : Nat)
  | externalId (kind : ExternalIdKind)
  deriving DecidableEq

/-- There is nothing but blanks in a text. -/
def IsBlank (text : String) : Prop := ∀ c ∈ text.toList, Text.isBlank c = true

/-- A body has this external identifier in the field for it. -/
inductive EntityBody.Carries : EntityBody → ExternalId → Prop
  | doi {r : Release} {v : String} (h : r.doi = some v) : Carries (.release r) ⟨.doi, v⟩
  | pmid {r : Release} {v : String} (h : r.pmid = some v) : Carries (.release r) ⟨.pmid, v⟩
  | pmcid {r : Release} {v : String} (h : r.pmcid = some v) : Carries (.release r) ⟨.pmcid, v⟩
  | releaseQid {r : Release} {v : String} (h : r.wikidataQid = some v) :
    Carries (.release r) ⟨.wikidataQid, v⟩
  | issnl {c : Container} {v : String} (h : c.issnl = some v) : Carries (.container c) ⟨.issnl, v⟩
  | containerQid {c : Container} {v : String} (h : c.wikidataQid = some v) :
    Carries (.container c) ⟨.wikidataQid, v⟩
  | orcid {c : Creator} {v : String} (h : c.orcid = some v) : Carries (.creator c) ⟨.orcid, v⟩
  | creatorQid {c : Creator} {v : String} (h : c.wikidataQid = some v) :
    Carries (.creator c) ⟨.wikidataQid, v⟩
  | md5 {f : File} {v : String} (h : f.md5 = some v) : Carries (.file f) ⟨.md5, v⟩
  | sha1 {f : File} {v : String} (h : f.sha1 = some v) : Carries (.file f) ⟨.sha1, v⟩
  | sha256 {f : File} {v : String} (h : f.sha256 = some v) : Carries (.file f) ⟨.sha256, v⟩

/-- A body breaks a rule, and this is the fault. -/
inductive EntityBody.Breaks : EntityBody → Rule → FieldFault → Prop
  | blankTitle {w : Work} {title : String} (given : w.title = some title) (blank : IsBlank title) :
    Breaks (.work w) .title ⟨"work", "title", .blankTitle⟩
  | untitled {r : Release} (blank : IsBlank r.title) (real : r.releaseType ≠ some "stub") :
    Breaks (.release r) .title ⟨"release", "title", .untitled⟩
  | releaseType {r : Release} {raw : String} (given : r.releaseType = some raw)
    (unknown : raw ∉ Vocabulary.releaseTypes) :
    Breaks (.release r) .releaseType ⟨"release", "release_type", .unknownReleaseType raw⟩
  | releaseYear {r : Release} {date : Date} {year : Int64} (dated : r.releaseDate = some date)
    (given : r.releaseYear = some year) (differs : date.year ≠ year.toInt) :
    Breaks (.release r) .releaseYear ⟨"release", "release_year", .yearDiffers year date⟩
  | role {r : Release} {i : Nat} {c : Contributor} {raw : String} (item : r.contribs[i]? = some c)
    (given : c.role = some raw) (unknown : raw ∉ Vocabulary.contributorRoles) :
    Breaks (.release r) (.role i)
      ⟨"release", indexedField "contribs" i ++ ".role", .unknownRole raw⟩
  | credit {r : Release} {i : Nat} {c : Contributor} (item : r.contribs[i]? = some c)
    (unlinked : c.creatorId = none) (unnamed : c.rawName = none) :
    Breaks (.release r) (.credit i) ⟨"release", indexedField "contribs" i, .anonymous⟩
  | citation {r : Release} {i : Nat} {c : Reference} (item : r.refs[i]? = some c)
    (unlinked : c.targetReleaseId = none) (untitled : c.title = none) (keyless : c.key = none)
    (bare : c.extra.members = []) :
    Breaks (.release r) (.citation i) ⟨"release", indexedField "refs" i, .emptyReference⟩
  | containerName {c : Container} (blank : IsBlank c.name) :
    Breaks (.container c) .name ⟨"container", "name", .empty⟩
  | creatorName {c : Creator} (blank : IsBlank c.displayName) :
    Breaks (.creator c) .name ⟨"creator", "display_name", .empty⟩
  | digest {f : File} (md5 : f.md5 = none) (sha1 : f.sha1 = none) (sha256 : f.sha256 = none) :
    Breaks (.file f) .digest ⟨"file", "sha1", .noDigest⟩
  | url {f : File} {i : Nat} {u : FileUrl} (item : f.urls[i]? = some u) (blank : IsBlank u.url) :
    Breaks (.file f) (.url i) ⟨"file", indexedField "urls" i ++ ".url", .empty⟩
  | copy {f : File} {i j : Nat} {id : EntityId} (item : f.releaseIds[i]? = some id)
    (same : f.releaseIds[j]? = some id) (before : j < i) :
    Breaks (.file f) (.copy i) ⟨"file", "release_ids", .repeatedRelease id⟩
  | externalId {b : EntityBody} {e : ExternalId} (carries : b.Carries e)
    (malformed : e.isWellFormed = false) :
    Breaks b (.externalId e.kind) ⟨b.kind.name, e.kind.name, .malformed e⟩

/-! ### Full accounts -/

/-- Faults are a full account of what is broken: each rule that is broken has one entry, which is
    the fault for it, and there are no other entries. -/
def Tallies {ρ : Type} (P : ρ → FieldFault → Prop) (faults : List FieldFault) : Prop :=
  ∃ rules : List ρ, rules.Nodup ∧ (∀ rule, rule ∈ rules ↔ ∃ f, P rule f) ∧
    List.Forall₂ P rules faults

namespace Tallies

variable {ρ α : Type} {P Q : ρ → FieldFault → Prop} {faults more : List FieldFault}

theorem congr (h : Tallies P faults) (same : ∀ rule f, P rule f ↔ Q rule f) : Tallies Q faults := by
  have : P = Q := by
    funext rule f
    exact propext (same rule f)
  exact this ▸ h

theorem nil (none : ∀ rule f, ¬P rule f) : Tallies P [] := by
  refine ⟨[], List.nodup_nil, fun rule => ?_, .nil⟩
  constructor
  · intro h
    cases h
  · rintro ⟨f, h⟩
    exact absurd h (none rule f)

/-- There is nothing to report exactly when no rule is broken. -/
theorem eq_nil_iff (h : Tallies P faults) : faults = [] ↔ ∀ rule f, ¬P rule f := by
  obtain ⟨rules, -, mem, each⟩ := h
  constructor
  · rintro rfl rule f broken
    cases each
    cases (mem rule).2 ⟨f, broken⟩
  · intro none
    cases each with
    | nil => rfl
    | cons first _ => exact absurd first (none _ _)

/-- Accounts of different rules make one account. -/
theorem append (h : Tallies P faults) (h' : Tallies Q more)
    (apart : ∀ rule f g, P rule f → ¬Q rule g) :
    Tallies (fun rule f => P rule f ∨ Q rule f) (faults ++ more) := by
  obtain ⟨rules, nodup, mem, each⟩ := h
  obtain ⟨rules', nodup', mem', each'⟩ := h'
  refine ⟨rules ++ rules', ?_, fun rule => ?_, ?_⟩
  · refine List.nodup_append.2 ⟨nodup, nodup', ?_⟩
    rintro rule hrule _ hrule' rfl
    obtain ⟨f, hf⟩ := (mem rule).1 hrule
    obtain ⟨g, hg⟩ := (mem' rule).1 hrule'
    exact apart rule f g hf hg
  · rw [List.mem_append, mem, mem', exists_or]
  · exact List.rel_append (each.imp fun _ _ => .inl) (each'.imp fun _ _ => .inr)

theorem faultIf (rule : ρ) (wrong : Bool) (fault : FieldFault) :
    Tallies (fun r f => r = rule ∧ wrong = true ∧ f = fault) (Biblio.faultIf wrong fault) := by
  cases wrong with
  | false => exact nil (by simp)
  | true =>
    refine ⟨[rule], List.nodup_singleton _, by simp, ?_⟩
    exact .cons ⟨rfl, rfl, rfl⟩ .nil

theorem toList (rule : ρ) (fault? : Option FieldFault) :
    Tallies (fun r f => r = rule ∧ fault? = some f) fault?.toList := by
  cases fault? with
  | none => exact nil (by simp)
  | some fault =>
    refine ⟨[rule], List.nodup_singleton _, by simp, ?_⟩
    exact .cons ⟨rfl, rfl⟩ .nil

/-- The items of a list, each with the rule for it, are checked one by one. -/
theorem filterMap (xs : List α) {rule : α → ρ} (distinct : (xs.map rule).Nodup)
    (fault? : α → Option FieldFault) :
    Tallies (fun r f => ∃ x ∈ xs, r = rule x ∧ fault? x = some f) (xs.filterMap fault?) := by
  induction xs with
  | nil => exact nil (by simp)
  | cons x xs ih =>
    obtain ⟨new, distinct⟩ := List.nodup_cons.1 distinct
    have split : (x :: xs).filterMap fault? = (fault? x).toList ++ xs.filterMap fault? := by
      cases h : fault? x <;> simp [h]
    rw [split]
    refine ((toList (rule x) (fault? x)).append (ih distinct) ?_).congr ?_
    · rintro _ f g ⟨rfl, -⟩ ⟨y, hy, same, -⟩
      exact new (List.mem_map.2 ⟨y, hy, same.symm⟩)
    · simp

/-- The items of a list are checked with rules for their places. -/
theorem items (xs : List α) {P : Nat → α → ρ → FieldFault → Prop}
    {faults : α → Nat → List FieldFault} (each : ∀ i x, Tallies (P i x) (faults x i))
    (apart : ∀ i j x y rule f g, i ≠ j → P i x rule f → ¬P j y rule g) :
    Tallies (fun rule f => ∃ i x, xs[i]? = some x ∧ P i x rule f)
      (xs.zipIdx.flatMap fun (x, i) => faults x i) := by
  -- for the induction the first place need not be the first one of all
  suffices ∀ n, Tallies (fun rule f => ∃ i x, xs[i]? = some x ∧ P (n + i) x rule f)
      ((xs.zipIdx n).flatMap fun (x, i) => faults x i) by simpa using this 0
  induction xs with
  | nil => exact fun n => nil (by simp)
  | cons x xs ih =>
    intro n
    rw [List.zipIdx_cons, List.flatMap_cons]
    refine ((each n x).append (ih (n + 1)) ?_).congr fun rule f => ?_
    · rintro rule f g here ⟨i, y, -, there⟩
      exact apart n (n + 1 + i) x y rule f g (by omega) here there
    · constructor
      · rintro (here | ⟨i, y, hy, there⟩)
        · exact ⟨0, x, rfl, here⟩
        · exact ⟨i + 1, y, hy, by rwa [Nat.add_right_comm] at there⟩
      · rintro ⟨_ | i, y, hy, there⟩
        · obtain rfl : x = y := by simpa using hy
          exact .inl there
        · exact .inr ⟨i, y, by simpa using hy, by rwa [Nat.add_right_comm]⟩

end Tallies

/-! ### Bodies by themselves -/

/-- The rule is not about an external identifier. -/
def Rule.IsOwn : Rule → Prop
  | .externalId _ => False
  | _ => True

/-- A body breaks one of the rules of its own kind. -/
def EntityBody.BreaksOwn (b : EntityBody) (rule : Rule) (f : FieldFault) : Prop :=
  rule.IsOwn ∧ b.Breaks rule f

theorem isBlankText_iff {text : String} : Text.isBlankText text = true ↔ IsBlank text :=
  List.all_eq_true

theorem ofRequired?_eq_some {entity field text : String} {f : FieldFault} :
    FieldFault.ofRequired? entity field text = some f ↔
      IsBlank text ∧ f = ⟨entity, field, .empty⟩ := by
  rw [FieldFault.ofRequired?, ← isBlankText_iff]
  split <;> rename_i blank
  · rw [Option.some.injEq, eq_comm]
    exact (and_iff_right blank).symm
  · simp [blank]

theorem ofRole?_eq_some {entity field raw : String} {f : FieldFault} :
    FieldFault.ofRole? entity field raw = some f ↔
      raw ∉ Vocabulary.contributorRoles ∧ f = ⟨entity, field, .unknownRole raw⟩ := by
  rw [FieldFault.ofRole?]
  split <;> rename_i known <;> simp_all [eq_comm]

theorem ofReleaseType?_eq_some {entity raw : String} {f : FieldFault} :
    FieldFault.ofReleaseType? entity raw = some f ↔
      raw ∉ Vocabulary.releaseTypes ∧ f = ⟨entity, "release_type", .unknownReleaseType raw⟩ := by
  rw [FieldFault.ofReleaseType?]
  split <;> rename_i known <;> simp_all [eq_comm]

theorem Work.tallies (w : Work) : Tallies (EntityBody.work w).BreaksOwn w.faults := by
  rw [Work.faults]
  cases given : w.title with
  | none =>
    refine .nil fun rule f => ?_
    rintro ⟨own, broken⟩
    cases broken with
    | blankTitle given' => cases given.symm.trans given'
    | externalId => exact own
  | some title =>
    refine (Tallies.faultIf .title _ _).congr fun rule f => ?_
    rw [isBlankText_iff]
    constructor
    · rintro ⟨rfl, blank, rfl⟩
      exact ⟨trivial, .blankTitle given blank⟩
    · rintro ⟨own, broken⟩
      cases broken with
      | blankTitle given' blank =>
        obtain rfl := Option.some.inj (given.symm.trans given')
        exact ⟨rfl, blank, rfl⟩
      | externalId => exact own.elim

theorem Container.tallies (c : Container) :
    Tallies (EntityBody.container c).BreaksOwn
      (FieldFault.ofRequired? "container" "name" c.name).toList := by
  refine (Tallies.toList .name _).congr fun rule f => ?_
  rw [ofRequired?_eq_some]
  constructor
  · rintro ⟨rfl, blank, rfl⟩
    exact ⟨trivial, .containerName blank⟩
  · rintro ⟨own, broken⟩
    cases broken with
    | containerName blank => exact ⟨rfl, blank, rfl⟩
    | externalId => exact own.elim

theorem Creator.tallies (c : Creator) :
    Tallies (EntityBody.creator c).BreaksOwn
      (FieldFault.ofRequired? "creator" "display_name" c.displayName).toList := by
  refine (Tallies.toList .name _).congr fun rule f => ?_
  rw [ofRequired?_eq_some]
  constructor
  · rintro ⟨rfl, blank, rfl⟩
    exact ⟨trivial, .creatorName blank⟩
  · rintro ⟨own, broken⟩
    cases broken with
    | creatorName blank => exact ⟨rfl, blank, rfl⟩
    | externalId => exact own.elim

/-! #### Releases -/

theorem Contributor.tallies (c : Contributor) (i : Nat) :
    Tallies (fun (rule : Rule) f =>
      rule = .role i ∧ (∃ raw, c.role = some raw ∧ raw ∉ Vocabulary.contributorRoles ∧
        f = ⟨"release", indexedField "contribs" i ++ ".role", .unknownRole raw⟩) ∨
      rule = .credit i ∧ c.creatorId = none ∧ c.rawName = none ∧
        f = ⟨"release", indexedField "contribs" i, .anonymous⟩) (c.faults i) := by
  refine ((Tallies.toList (.role i) _).append (Tallies.faultIf (.credit i) _ _) ?_).congr ?_
  · rintro _ f g ⟨rfl, -⟩ ⟨h, -⟩
    cases h
  · intro rule f
    simp [Option.bind_eq_some_iff, ofRole?_eq_some, and_assoc]

theorem Reference.tallies (r : Reference) (i : Nat) :
    Tallies (fun (rule : Rule) f => rule = .citation i ∧
      (r.targetReleaseId = none ∧ r.title = none ∧ r.key = none ∧ r.extra.members = []) ∧
        f = ⟨"release", indexedField "refs" i, .emptyReference⟩) (r.faults i) := by
  refine (Tallies.faultIf (.citation i) _ _).congr fun rule f => ?_
  simp [Reference.isStub, Extra.isEmpty, and_assoc]

theorem Release.tallies_year (r : Release) :
    Tallies (fun (rule : Rule) f => rule = .releaseYear ∧ ∃ date year, r.releaseDate = some date ∧
      r.releaseYear = some year ∧ date.year ≠ year.toInt ∧
        f = ⟨"release", "release_year", .yearDiffers year date⟩) r.yearFaults := by
  rw [Release.yearFaults]
  split
  · rename_i date year dated given
    refine (Tallies.faultIf .releaseYear _ _).congr fun rule f => ?_
    simp [dated, given]
  · rename_i missing
    refine .nil fun rule f => ?_
    rintro ⟨-, date, year, dated, given, -⟩
    exact missing date year dated given

theorem Release.tallies (r : Release) : Tallies (EntityBody.release r).BreaksOwn r.faults := by
  have title := Tallies.faultIf Rule.title (Text.isBlankText r.title && !r.isStub)
    ⟨"release", "title", .untitled⟩
  have type := Tallies.toList Rule.releaseType
    (r.releaseType.bind (FieldFault.ofReleaseType? "release"))
  have contribs := Tallies.items r.contribs (fun i c => c.tallies i) (by
    rintro i j c c' rule f g ne (⟨rfl, -⟩ | ⟨rfl, -⟩) (⟨h, -⟩ | ⟨h, -⟩) <;> cases h <;>
      exact ne rfl)
  have refs := Tallies.items r.refs (fun i c => c.tallies i) (by
    rintro i j c c' rule f g ne ⟨rfl, -⟩ ⟨h, -⟩
    cases h
    exact ne rfl)
  have head := title.append type (by
    rintro _ f g ⟨rfl, -⟩ ⟨h, -⟩
    cases h)
  have fields := head.append r.tallies_year (by
    rintro _ f g (⟨rfl, -⟩ | ⟨rfl, -⟩) ⟨h, -⟩ <;> cases h)
  have credits := fields.append contribs (by
    rintro _ f g ((⟨rfl, -⟩ | ⟨rfl, -⟩) | ⟨rfl, -⟩) ⟨i, c, -, ⟨h, -⟩ | ⟨h, -⟩⟩ <;> cases h)
  have all := credits.append refs (by
    rintro _ f g (((⟨rfl, -⟩ | ⟨rfl, -⟩) | ⟨rfl, -⟩) | ⟨j, c', -, ⟨rfl, -⟩ | ⟨rfl, -⟩⟩)
      ⟨i, c, -, h, -⟩ <;> cases h)
  refine all.congr fun rule f => ⟨?_, ?_⟩
  · rintro ((((⟨rfl, wrong, rfl⟩ | ⟨rfl, wrong⟩) |
      ⟨rfl, date, year, dated, given, differs, rfl⟩) |
      ⟨i, c, item, ⟨rfl, raw, given, unknown, rfl⟩ | ⟨rfl, unlinked, unnamed, rfl⟩⟩) |
      ⟨i, c, item, rfl, ⟨unlinked, untitled, keyless, bare⟩, rfl⟩)
    · simp only [Bool.and_eq_true, Bool.not_eq_true', Release.isStub, beq_eq_false_iff_ne,
        isBlankText_iff] at wrong
      exact ⟨trivial, .untitled wrong.1 wrong.2⟩
    · obtain ⟨raw, given, wrong⟩ := Option.bind_eq_some_iff.1 wrong
      obtain ⟨unknown, rfl⟩ := ofReleaseType?_eq_some.1 wrong
      exact ⟨trivial, .releaseType given unknown⟩
    · exact ⟨trivial, .releaseYear dated given differs⟩
    · exact ⟨trivial, .role item given unknown⟩
    · exact ⟨trivial, .credit item unlinked unnamed⟩
    · exact ⟨trivial, .citation item unlinked untitled keyless bare⟩
  · rintro ⟨own, broken⟩
    cases broken with
    | untitled blank real =>
      refine .inl (.inl (.inl (.inl ⟨rfl, ?_, rfl⟩)))
      simp only [Bool.and_eq_true, Bool.not_eq_true', Release.isStub, beq_eq_false_iff_ne,
        isBlankText_iff]
      exact ⟨blank, real⟩
    | releaseType given unknown =>
      refine .inl (.inl (.inl (.inr ⟨rfl, ?_⟩)))
      exact Option.bind_eq_some_iff.2 ⟨_, given, ofReleaseType?_eq_some.2 ⟨unknown, rfl⟩⟩
    | releaseYear dated given differs =>
      exact .inl (.inl (.inr ⟨rfl, _, _, dated, given, differs, rfl⟩))
    | role item given unknown => exact .inl (.inr ⟨_, _, item, .inl ⟨rfl, _, given, unknown, rfl⟩⟩)
    | credit item unlinked unnamed =>
      exact .inl (.inr ⟨_, _, item, .inr ⟨rfl, unlinked, unnamed, rfl⟩⟩)
    | citation item unlinked untitled keyless bare =>
      exact .inr ⟨_, _, item, rfl, ⟨unlinked, untitled, keyless, bare⟩, rfl⟩
    | externalId => exact own.elim

/-! #### Files -/

/-- Each release that stands in a list before, or was seen before the list, has an entry. -/
theorem File.tallies_repeated (seen ids : List EntityId) (n : Nat) :
    Tallies (fun (rule : Rule) f => ∃ i id, rule = .copy (n + i) ∧ ids[i]? = some id ∧
        (id ∈ seen ∨ ∃ j < i, ids[j]? = some id) ∧
          f = ⟨"file", "release_ids", .repeatedRelease id⟩)
      (File.repeatedFaults seen ids) := by
  induction ids generalizing seen n with
  | nil => exact .nil (by simp)
  | cons id ids ih =>
    rw [File.repeatedFaults]
    refine ((Tallies.faultIf (.copy n) _ _).append (ih (id :: seen) (n + 1)) ?_).congr ?_
    · rintro _ f g ⟨rfl, -⟩ ⟨i, id', h, -⟩
      have := Rule.copy.inj h
      omega
    intro rule f
    constructor
    · rintro (⟨rfl, wrong, rfl⟩ | ⟨i, id', rfl, item, before, rfl⟩)
      · exact ⟨0, id, rfl, rfl, .inl (by simpa using wrong), rfl⟩
      · refine ⟨i + 1, id', by rw [Nat.add_right_comm]; rfl, item, ?_, rfl⟩
        rcases before with seen | ⟨j, lt, same⟩
        · rcases List.mem_cons.1 seen with rfl | seen
          · exact .inr ⟨0, by omega, rfl⟩
          · exact .inl seen
        · exact .inr ⟨j + 1, by omega, same⟩
    · rintro ⟨_ | i, id', rfl, item, before, rfl⟩
      · obtain rfl : id = id' := by simpa using item
        rcases before with seen | ⟨j, lt, -⟩
        · exact .inl ⟨rfl, by simpa using seen, rfl⟩
        · omega
      · refine .inr ⟨i, id', by rw [Nat.add_right_comm]; rfl, item, ?_, rfl⟩
        rcases before with seen | ⟨_ | j, lt, same⟩
        · exact .inl (List.mem_cons_of_mem _ seen)
        · obtain rfl : id = id' := by simpa using same
          exact .inl List.mem_cons_self
        · exact .inr ⟨j, by omega, same⟩

theorem File.tallies (f : File) : Tallies (EntityBody.file f).BreaksOwn f.faults := by
  have digest := Tallies.faultIf Rule.digest (f.md5.isNone && f.sha1.isNone && f.sha256.isNone)
    ⟨"file", "sha1", .noDigest⟩
  have urls := Tallies.items f.urls (fun i u => Tallies.toList (Rule.url i)
    (FieldFault.ofRequired? "file" (indexedField "urls" i ++ ".url") u.url)) (by
      rintro i j u u' rule g g' ne ⟨rfl, -⟩ ⟨h, -⟩
      cases h
      exact ne rfl)
  have head := digest.append urls (by
    rintro _ g g' ⟨rfl, -⟩ ⟨i, u, -, h, -⟩
    cases h)
  have all := head.append (File.tallies_repeated [] f.releaseIds 0) (by
    rintro _ g g' (⟨rfl, -⟩ | ⟨j, u, -, rfl, -⟩) ⟨i, id, h, -⟩ <;> cases h)
  refine all.congr fun rule g => ⟨?_, ?_⟩
  · rintro ((⟨rfl, wrong, rfl⟩ | ⟨i, u, item, rfl, wrong⟩) |
      ⟨i, id, rfl, item, seen | ⟨j, lt, same⟩, rfl⟩)
    · simp only [Bool.and_eq_true, Option.isNone_iff_eq_none] at wrong
      exact ⟨trivial, .digest wrong.1.1 wrong.1.2 wrong.2⟩
    · obtain ⟨blank, rfl⟩ := ofRequired?_eq_some.1 wrong
      exact ⟨trivial, .url item blank⟩
    · cases seen
    · rw [Nat.zero_add]
      exact ⟨trivial, .copy item same lt⟩
  · rintro ⟨own, broken⟩
    cases broken with
    | digest md5 sha1 sha256 => exact .inl (.inl ⟨rfl, by simp [md5, sha1, sha256], rfl⟩)
    | url item blank => exact .inl (.inr ⟨_, _, item, rfl, ofRequired?_eq_some.2 ⟨blank, rfl⟩⟩)
    | copy item same lt =>
      exact .inr ⟨_, _, by rw [Nat.zero_add], item, .inr ⟨_, lt, same⟩, rfl⟩
    | externalId => exact own.elim

theorem EntityBody.tallies_ownFaults (b : EntityBody) : Tallies b.BreaksOwn b.ownFaults := by
  cases b with
  | work w => exact w.tallies
  | release r => exact r.tallies
  | container c => exact c.tallies
  | creator c => exact c.tallies
  | file f => exact f.tallies

/-! #### External identifiers -/

namespace EntityBody

theorem mem_externalIds {b : EntityBody} {e : ExternalId} : e ∈ b.externalIds ↔ b.Carries e := by
  have field : ∀ {kind : ExternalIdKind} {value : Option String},
      e ∈ externalId kind value ↔ ∃ v, value = some v ∧ e = ⟨kind, v⟩ := by
    intro kind value
    simp [externalId, eq_comm (b := e)]
  constructor
  · intro h
    cases b with
    | work w => cases h
    | release r =>
      simp only [externalIds, List.mem_append, field] at h
      rcases h with ((⟨v, h, rfl⟩ | ⟨v, h, rfl⟩) | ⟨v, h, rfl⟩) | ⟨v, h, rfl⟩
      · exact .doi h
      · exact .pmid h
      · exact .pmcid h
      · exact .releaseQid h
    | container c =>
      simp only [externalIds, List.mem_append, field] at h
      rcases h with ⟨v, h, rfl⟩ | ⟨v, h, rfl⟩
      · exact .issnl h
      · exact .containerQid h
    | creator c =>
      simp only [externalIds, List.mem_append, field] at h
      rcases h with ⟨v, h, rfl⟩ | ⟨v, h, rfl⟩
      · exact .orcid h
      · exact .creatorQid h
    | file f =>
      simp only [externalIds, List.mem_append, field] at h
      rcases h with (⟨v, h, rfl⟩ | ⟨v, h, rfl⟩) | ⟨v, h, rfl⟩
      · exact .md5 h
      · exact .sha1 h
      · exact .sha256 h
  · intro h
    cases h <;> rename_i h <;> simp [externalIds, externalId, h]

/-- A body has at most one identifier of each registry. -/
theorem nodup_externalIds (b : EntityBody) : (b.externalIds.map (·.kind)).Nodup := by
  have field : ∀ (kind : ExternalIdKind) (value : Option String),
      ((externalId kind value).map (·.kind)).Sublist [kind] := by
    intro kind value
    cases value <;> simp [externalId]
  cases b with
  | work w => exact List.nodup_nil
  | release r =>
    simp only [externalIds, List.map_append]
    have all := (((field .doi r.doi).append (field .pmid r.pmid)).append
      (field .pmcid r.pmcid)).append (field .wikidataQid r.wikidataQid)
    exact List.Nodup.sublist all (by decide)
  | container c =>
    simp only [externalIds, List.map_append]
    exact List.Nodup.sublist ((field .issnl c.issnl).append (field .wikidataQid c.wikidataQid))
      (by decide)
  | creator c =>
    simp only [externalIds, List.map_append]
    exact List.Nodup.sublist ((field .orcid c.orcid).append (field .wikidataQid c.wikidataQid))
      (by decide)
  | file f =>
    simp only [externalIds, List.map_append]
    have all := ((field .md5 f.md5).append (field .sha1 f.sha1)).append (field .sha256 f.sha256)
    exact List.Nodup.sublist all (by decide)

/-- The faults of a body by itself are a full account of the rules that it breaks. -/
theorem tallies (b : EntityBody) : Tallies b.Breaks b.faults := by
  have distinct : (b.externalIds.map fun e => Rule.externalId e.kind).Nodup := by
    have kinds := b.nodup_externalIds.map (f := Rule.externalId) fun _ _ => Rule.externalId.inj
    rwa [List.map_map] at kinds
  have ids := Tallies.filterMap b.externalIds distinct (FieldFault.ofExternalId? b.kind.name)
  refine (b.tallies_ownFaults.append ids ?_).congr fun rule f => ?_
  · rintro _ f g ⟨own, -⟩ ⟨e, -, rfl, -⟩
    exact own
  constructor
  · rintro (⟨-, broken⟩ | ⟨e, he, rfl, wrong⟩)
    · exact broken
    · rw [FieldFault.ofExternalId?] at wrong
      split at wrong
      · cases wrong
      · rename_i malformed
        obtain rfl := Option.some.inj wrong
        exact .externalId (mem_externalIds.1 he) (Bool.not_eq_true _ ▸ malformed)
  · intro broken
    by_cases own : rule.IsOwn
    · exact .inl ⟨own, broken⟩
    · cases broken with
      | externalId carries malformed =>
        refine .inr ⟨_, mem_externalIds.2 carries, rfl, ?_⟩
        simp [FieldFault.ofExternalId?, malformed]
      | _ => exact absurd trivial own

end EntityBody

end Biblio
