import Biblio.Proofs.Lookups
import Biblio.Proofs.WrittenTimes

/-! Stored times as keys to sort by.

    The database keeps times as texts, and it sorts rows by these texts. Of the years that have four
    digits the texts are in the order of time and are read back, so that what is sorted by them
    stands in the order in which it was made, as long as the clock goes forward. -/

namespace Biblio

/-! ### Rows in the order of texts -/

/-- Rows in the order of the stored texts of their times. -/
def orderedByText {α : Type} (time : α → Instant) (rows : List α) : List α :=
  rows.mergeSort fun a b => Text.bytes (time a).storedText ≤ Text.bytes (time b).storedText

section Ordered
variable {α : Type} {time : α → Instant} {rows chosen : List α}

/-- Where times grow, their texts do. -/
theorem pairwise_text (plain : ∀ a ∈ rows, (time a).HasPlainYear)
    (sorted : rows.Pairwise fun a b => (time a).ordinal < (time b).ordinal) :
    rows.Pairwise fun a b =>
      Text.bytes (time a).storedText < Text.bytes (time b).storedText :=
  sorted.imp_of_mem fun ha hb lt =>
    (Instant.storedText_lt_iff (plain _ ha) (plain _ hb)).2 (Instant.ordinal_lt_iff.1 lt)

/-- Rows whose texts grow are found in this order, in whatever order they come. -/
theorem orderedByText_eq (sorted : chosen.Pairwise fun a b =>
      Text.bytes (time a).storedText < Text.bytes (time b).storedText)
    (perm : rows.Perm chosen) : orderedByText time rows = chosen := by
  have distinct : (chosen.map fun a => Text.bytes (time a).storedText).Nodup := by
    rw [List.Nodup, List.pairwise_map]
    refine sorted.imp fun lt same => ?_
    rw [same] at lt
    exact List.lt_irrefl _ lt
  have perm' : (orderedByText time rows).Perm chosen := (List.mergeSort_perm _ _).trans perm
  have ordered : (orderedByText time rows).Pairwise fun a b =>
      decide (Text.bytes (time a).storedText ≤ Text.bytes (time b).storedText) = true :=
    List.pairwise_mergeSort (fun a b c => by simpa using List.le_trans)
      (fun a b => by simpa using List.le_total _ _) rows
  refine perm'.eq_of_pairwise (fun a b ha hb hab hba => ?_) ordered
    (sorted.imp fun lt => by simpa using List.le_of_lt lt)
  simp only [decide_eq_true_eq] at hab hba
  exact List.inj_on_of_nodup_map distinct (perm'.mem_iff.1 ha) hb (List.le_antisymm hab hba)

end Ordered

namespace Store

/-- The current identities whose revisions refer to this one, in the order of the table. -/
def leadingTo (kind : RelationKind) (target : EntityId) (s : Store) : List Identity :=
  (s.current.filter fun (_, r) =>
    r.relations.any fun l => l.kind == kind && l.target == target).map (·.1)

/-- The current identities whose revisions carry this identifier, in the order of the table. -/
def carrying (x : ExternalId) (s : Store) : List Identity :=
  (s.current.filter fun (_, r) => r.externalIds.contains x).map (·.1)

/-- The editgroups of an editor, in the order of the table. -/
def ownedBy (editor : EditorId) (s : Store) : List EditgroupRow :=
  s.editgroups.filter (·.editor == editor)

theorem leadingTo_sublist (kind : RelationKind) (target : EntityId) (s : Store) :
    (s.leadingTo kind target).Sublist s.identities :=
  (List.filter_sublist.map _).trans s.current_sublist

theorem carrying_sublist (x : ExternalId) (s : Store) : (s.carrying x).Sublist s.identities :=
  (List.filter_sublist.map _).trans s.current_sublist

theorem ownedBy_sublist (editor : EditorId) (s : Store) :
    (s.ownedBy editor).Sublist s.editgroups := List.filter_sublist

/-! ### Rows in the order of times -/

section Increasing
variable {s : Store}

/-- References are listed in the order of the table if this is the order of times. -/
theorem referrers_eq (sorted : s.identities.Pairwise fun x y =>
      x.createdAt.ordinal < y.createdAt.ordinal) (kind : RelationKind) (target : EntityId) :
    s.referrers kind target = s.leadingTo kind target :=
  List.mergeSort_of_pairwise ((sorted.sublist (s.leadingTo_sublist kind target)).imp fun lt => by
    simp [lt])

/-- The identity that is found is the first of the table if this is in the order of times. -/
theorem findByExternalId?_eq (sorted : s.identities.Pairwise fun x y =>
      x.createdAt.ordinal < y.createdAt.ordinal) (x : ExternalId) :
    s.findByExternalId? x = (s.carrying x).head? :=
  congrArg List.head? (List.mergeSort_of_pairwise
    ((sorted.sublist (s.carrying_sublist x)).imp fun lt => by simpa using Int.le_of_lt lt))

/-- The editgroups of an editor are listed against the order of the table if this is the order of
    times. -/
theorem editgroupsOfEditor_eq (sorted : s.editgroups.Pairwise fun g h =>
      g.createdAt.ordinal < h.createdAt.ordinal) (editor : EditorId) :
    s.editgroupsOfEditor editor = (s.ownedBy editor).reverse.mapM headerOfRow := by
  have newest : (s.ownedBy editor).reverse.Pairwise fun g h =>
      decide (h.createdAt.ordinal ≤ g.createdAt.ordinal) = true := by
    rw [List.pairwise_reverse]
    exact (sorted.sublist (s.ownedBy_sublist editor)).imp fun lt => by
      simpa using Int.le_of_lt lt
  exact congrArg (·.mapM headerOfRow) (List.mergeSort_of_pairwise newest)

end Increasing

end Store

namespace Catalog

/-- What is sorted by the texts of times is listed in the order in which it was made. -/
structure ListsAsMade (src : Source) (c : Catalog) : Prop where
  /-- The clock was read for the identities in the order in which they stand. -/
  identities : (c.identities.map (·.createdAt)).Sublist ((List.range c.ticks).map src.time)
  /-- The clock was read for the editgroups in the order in which they stand. -/
  editgroups : (c.editgroups.map (·.createdAt)).Sublist ((List.range c.ticks).map src.time)
  /-- Some identities that come in any order are brought into that of the table. -/
  orders_identities : ∀ rows chosen, chosen.Sublist c.identities → rows.Perm chosen →
    orderedByText (·.createdAt) rows = chosen
  /-- Some editgroups that come in any order are brought into that of the table. -/
  orders_editgroups : ∀ rows chosen, chosen.Sublist c.editgroups → rows.Perm chosen →
    orderedByText (·.createdAt) rows = chosen
  referrers : ∀ kind target, (c.referrers kind target).Sublist c.identities ∧
    c.referrers kind target = orderedByText (·.createdAt) (c.leadingTo kind target)
  found : ∀ x, c.findByExternalId? x = (c.carrying x).head? ∧
    c.findByExternalId? x = (orderedByText (·.createdAt) (c.carrying x)).head?
  newest_first : ∀ editor,
    c.editgroupsOfEditor editor = (c.ownedBy editor).reverse.mapM Store.headerOfRow ∧
      c.editgroupsOfEditor editor =
        (orderedByText (·.createdAt) (c.ownedBy editor)).reverse.mapM Store.headerOfRow

section Reachable
variable {src : Source} {c : Catalog}

theorem plain_of_times {α : Type} {f : α → Instant} {rows : List α} {n : Nat}
    (plain : ∀ i < n, (src.time i).HasPlainYear)
    (h : (rows.map f).Sublist ((List.range n).map src.time)) : ∀ a ∈ rows, (f a).HasPlainYear := by
  intro a ha
  obtain ⟨i, hi, time⟩ := List.mem_map.1 (h.subset (List.mem_map_of_mem ha))
  rw [← time]
  exact plain i (List.mem_range.1 hi)

theorem Reachable.listsAsMade (h : Reachable src c) (increasing : src.IsIncreasing c.ticks)
    (plain : ∀ i < c.ticks, (src.time i).HasPlainYear) : c.ListsAsMade src := by
  have timed := h.isTimed
  have identities := timed.pairwise increasing
  have editgroups := pairwise_of_times increasing timed.editgroups
  have texts := pairwise_text (plain_of_times plain timed.identities) identities
  have texts' := pairwise_text (plain_of_times plain timed.editgroups) editgroups
  have orders : ∀ rows chosen, chosen.Sublist c.identities → rows.Perm chosen →
      orderedByText (·.createdAt) rows = chosen :=
    fun rows chosen part perm => orderedByText_eq (texts.sublist part) perm
  have orders' : ∀ rows chosen, chosen.Sublist c.editgroups → rows.Perm chosen →
      orderedByText (·.createdAt) rows = chosen :=
    fun rows chosen part perm => orderedByText_eq (texts'.sublist part) perm
  refine ⟨timed.identities, timed.editgroups, orders, orders', ?_, ?_, ?_⟩
  · intro kind target
    have same := Store.referrers_eq identities kind target
    have part := c.leadingTo_sublist kind target
    exact ⟨same ▸ part, same.trans (orders _ _ part (.refl _)).symm⟩
  · intro x
    have same := Store.findByExternalId?_eq identities x
    rw [orders _ _ (c.carrying_sublist x) (.refl _)]
    exact ⟨same, same⟩
  · intro editor
    have same := Store.editgroupsOfEditor_eq editgroups editor
    rw [orders' _ _ (c.ownedBy_sublist editor) (.refl _)]
    exact ⟨same, same⟩

end Reachable

/-- Stored times sort as texts as they sort in time. In the years that have four digits a moment is
    stored as a text of RFC 3339 that is read back as this moment, and the earlier of two moments
    has the lower text, byte by byte. Every text of RFC 3339 is read as the moment that it denotes,
    and if this is stored, it is read again as the same. So identities and editgroups that are
    sorted by these texts are listed in the order in which they were made, if the clock goes
    forward. -/
theorem stored_times_sort_as_texts :
    (∀ t : Instant, t.HasPlainYear → Timestamp.parse? t.storedText = some t ∧
        ∃ w : Timestamp.Written, w.text = t.storedText ∧ w.IsStored ∧ w.Denotes t) ∧
      (∀ t u : Instant, t.HasPlainYear → u.HasPlainYear →
        (Text.bytes t.storedText < Text.bytes u.storedText ↔ t.IsBefore u)) ∧
      (∀ w : Timestamp.Written, ∃ t, w.Denotes t ∧ Timestamp.parse? w.text = some t ∧
        (t.HasPlainYear → Timestamp.parse? t.storedText = some t)) ∧
      ∀ src c, Reachable src c → src.IsIncreasing c.ticks →
        (∀ i < c.ticks, (src.time i).HasPlainYear) → c.ListsAsMade src := by
  refine ⟨fun t plain => ⟨Instant.parse?_storedText plain, t.written plain, t.written_text plain,
    t.written_isStored plain, t.written_denotes plain⟩, fun t u => Instant.storedText_lt_iff,
    fun w => ?_, fun src c h => h.listsAsMade⟩
  obtain ⟨t, read, denotes⟩ := w.exists_parse
  exact ⟨t, denotes, read, Instant.parse?_storedText⟩

end Catalog

/-- A clock that counts half seconds, so that every other stored text has a fraction. -/
def Source.halves : Source where
  id := Source.counting.id
  time n :=
    { date := (Source.counting.time 0).date, second := n / 2 % 86400, nano := n % 2 * 500000000 }

theorem Source.halves_isIncreasing {count : Nat} (day : count ≤ 172800) :
    Source.halves.IsIncreasing count := by
  intro i j lt hj
  have hi : i / 2 % 86400 = i / 2 := Nat.mod_eq_of_lt (by omega)
  have hj : j / 2 % 86400 = j / 2 := Nat.mod_eq_of_lt (by omega)
  simp only [Source.halves, Instant.ordinal, hi, hj]
  omega

namespace Catalog

/-- Two releases of a work, made by the clock that counts half seconds. -/
def halved : Catalog := Catalog.empty.play .halves [
  ⟨.createEditor "someone"⟩, ⟨.autoaccept (.nth 0) (.work {})⟩, ⟨.createEditor "another"⟩,
  ⟨.autoaccept (.nth 0) book⟩, ⟨.autoaccept (.nth 5) book⟩]

/-- Half an hour into a year, where local time is an hour ahead. -/
def newYear : Timestamp.Written where
  date := ⟨2017, 1, 1, by decide⟩
  plain := by decide
  divider := 't'
  divides := by decide
  clock :=
    { hour := 0, minute := 30, second := 0, exist := by decide
      fraction := "25".toList, digits := by simp [Text.isAsciiDigit] }
  zone := .offset '+' 1 0 (by decide)

theorem halved_stored_times_sort_as_texts :
    Timestamp.parse? Instant.leapSecond.storedText = some .leapSecond ∧
      (∃ t, newYear.Denotes t ∧ t.date.year = 2016 ∧ Timestamp.parse? t.storedText = some t ∧
        Text.bytes t.storedText < Text.bytes Instant.leapSecond.storedText) ∧
      (∃ x ∈ halved.identities, ∃ y ∈ halved.identities,
        x.createdAt.storedText.length ≠ y.createdAt.storedText.length) ∧
      halved.ListsAsMade .halves := by
  obtain ⟨stored, lower, read, lists⟩ := stored_times_sort_as_texts
  have plain : Instant.leapSecond.HasPlainYear := by decide
  obtain ⟨t, denotes, ht, again⟩ := read newYear
  have there : Timestamp.parse? newYear.text = some
      { date := ⟨2016, 12, 31, by decide⟩, second := 84600, nano := 250000000 } := by decide +kernel
  obtain rfl := Option.some.inj (ht.symm.trans there)
  refine ⟨(stored _ plain).1, ⟨_, denotes, rfl, again (by decide), ?_⟩, ?_, ?_⟩
  · exact (lower _ _ (by decide) plain).2 (by decide +kernel)
  · decide +kernel
  · refine lists .halves halved (leads_play ..) (Source.halves_isIncreasing ?_) fun i _ => ?_
    · decide +kernel
    · exact ⟨show (0 : Int) ≤ 1970 by decide, show (1970 : Int) ≤ 9999 by decide⟩

end Catalog

end Biblio
