import Biblio.Catalog.Changelog
import Biblio.Proofs.Integrity

/-! The changelog of a catalog.

    Its entries are numbered from one on in the order in which they were appended, so that reading
    them in ascending order is reading them as they stand. There is one for each accepted editgroup,
    and none for any other. -/

namespace Biblio.Store

/-- The changelog is numbered from one on, and its entries are those of accepted editgroups. -/
structure Logged (s : Store) : Prop where
  seqs : s.changelog.map (·.seq) = (List.range s.changelog.length).map fun i : Nat => (i : Int) + 1
  groups : (s.changelog.map (·.editgroup)).Nodup
  known : ∀ x ∈ s.changelog, ∃ g ∈ s.editgroups,
    g.id = x.editgroup ∧ g.status = .accepted ∧ g.IsLegible
  entered : ∀ g ∈ s.editgroups, g.status = .accepted → ∃ x ∈ s.changelog, x.editgroup = g.id

theorem foldl_max_range (n : Nat) :
    ((List.range n).map fun i : Nat => (i : Int) + 1).foldl max 0 = n := by
  induction n with
  | zero => rfl
  | succ n ih =>
    rw [List.range_succ, List.map_append, List.foldl_append, ih]
    simp only [List.map_cons, List.map_nil, List.foldl_cons, List.foldl_nil]
    omega

/-- The next entry gets the number behind those there are. -/
theorem Logged.nextSeq_eq {s : Store} (h : s.Logged) : s.nextSeq = s.changelog.length + 1 := by
  rw [nextSeq, h.seqs, foldl_max_range]

theorem Logged.lt_nextSeq {s : Store} (h : s.Logged) {x : ChangelogEntry} (hx : x ∈ s.changelog) :
    x.seq < s.nextSeq := by
  have : x.seq ∈ s.changelog.map (·.seq) := List.mem_map_of_mem hx
  rw [h.seqs] at this
  obtain ⟨i, hi, heq⟩ := List.mem_map.1 this
  have := List.mem_range.1 hi
  rw [h.nextSeq_eq, ← heq]
  omega

theorem Logged.pairwise_seq {s : Store} (h : s.Logged) :
    s.changelog.Pairwise fun x y => x.seq < y.seq := by
  rw [← List.pairwise_map (R := (· < ·)), h.seqs, List.pairwise_map]
  exact List.pairwise_lt_range.imp fun hij => by omega

/-- The changelog stands in ascending order. -/
theorem Logged.sortedChangelog_eq {s : Store} (h : s.Logged) : s.sortedChangelog = s.changelog :=
  List.mergeSort_of_pairwise (h.pairwise_seq.imp fun hlt => by simpa using Int.le_of_lt hlt)

theorem Logged.changelogOf?_eq_some {s : Store} (h : s.Logged) {group : EditgroupId}
    {x : ChangelogEntry} :
    s.changelogOf? group = some x ↔ x ∈ s.changelog ∧ x.editgroup = group :=
  find?_eq_some_iff h.groups

/-- An editgroup that can be worked on has no entry. -/
theorem Logged.not_entered {s : Store} (h : s.Logged) (keyed : s.Keyed) {group : EditgroupId}
    (writable : s.HasWritable group) : ∀ x ∈ s.changelog, x.editgroup ≠ group := by
  rintro x hx rfl
  obtain ⟨g, hg, hid, pending, -⟩ := writable
  obtain ⟨g', hg', hid', accepted, -⟩ := h.known x hx
  obtain rfl := keyed.editgroup_unique hg hg' (hid.trans hid'.symm)
  rw [pending] at accepted
  cases accepted

/-- Closing an editgroup leaves the others as they are. -/
theorem mem_closed_editgroups {s : Store} {group : EditgroupId} {status : EditgroupStatus}
    {time : Instant} {g : EditgroupRow} :
    g ∈ (s.closed group status time).editgroups ↔
      (g ∈ s.editgroups ∧ g.id ≠ group) ∨
        ∃ g' ∈ s.editgroups, g'.id = group ∧ g = { g' with status, closedAt := some time } := by
  simp only [closed, changeWhere, List.mem_map]
  constructor
  · rintro ⟨g', hg', rfl⟩
    by_cases hid : g'.id = group
    · exact .inr ⟨g', hg', hid, by simp [hid]⟩
    · exact .inl (by simp [hid, hg'])
  · rintro (⟨hg, hid⟩ | ⟨g', hg', hid, rfl⟩)
    · exact ⟨g, hg, by simp [hid]⟩
    · exact ⟨g', hg', by simp [hid]⟩

theorem Logged.accept {s : Store} (h : s.Logged) (keyed : s.Keyed) {group : EditgroupId}
    (closedAt acceptedAt : Instant) (writable : s.HasWritable group) :
    (s.accepted group closedAt acceptedAt).Logged where
  seqs := by
    simp [accepted, h.seqs, h.nextSeq_eq, List.range_succ]
  groups := nodup_map_concat h.groups (h.not_entered keyed writable)
  known := by
    refine List.forall_mem_append.2 ⟨fun x hx => ?_, List.forall_mem_singleton.2 ?_⟩
    · obtain ⟨g, hg, hid, accepted, legible⟩ := h.known x hx
      have hne : g.id ≠ group := hid ▸ h.not_entered keyed writable x hx
      exact ⟨g, mem_closed_editgroups.2 (.inl ⟨hg, hne⟩), hid, accepted, legible⟩
    · obtain ⟨g, hg, hid, -, legible⟩ := writable
      exact ⟨_, mem_closed_editgroups.2 (.inr ⟨g, hg, hid, rfl⟩), hid, rfl, legible⟩
  entered := by
    intro g hg accepted
    rcases mem_closed_editgroups.1 hg with ⟨hg, -⟩ | ⟨g', -, hid, rfl⟩
    · obtain ⟨x, hx, heq⟩ := h.entered g hg accepted
      exact ⟨x, List.mem_append_left _ hx, heq⟩
    · exact ⟨_, List.mem_append_right _ (List.mem_singleton_self _), hid.symm⟩

theorem Logged.abandon {s : Store} (h : s.Logged) (keyed : s.Keyed) {group : EditgroupId}
    (time : Instant) (writable : s.HasWritable group) :
    (s.closed group .abandoned time).Logged where
  seqs := h.seqs
  groups := h.groups
  known x hx := by
    obtain ⟨g, hg, hid, accepted, legible⟩ := h.known x hx
    have hne : g.id ≠ group := hid ▸ h.not_entered keyed writable x hx
    exact ⟨g, mem_closed_editgroups.2 (.inl ⟨hg, hne⟩), hid, accepted, legible⟩
  entered g hg accepted := by
    rcases mem_closed_editgroups.1 hg with ⟨hg, -⟩ | ⟨g', -, -, rfl⟩
    · exact h.entered g hg accepted
    · cases accepted

theorem Arises.logged {s : Store} (h : s.Arises) : s.Logged := by
  induction h using Arises.induction with
  | empty => exact ⟨rfl, .nil, fun _ h => (nomatch h), fun _ h => (nomatch h)⟩
  | change arises step ih =>
    cases step with
    | editgroup g pending _ _ new =>
      refine { ih with known := ?_, entered := ?_ }
      · intro x hx
        obtain ⟨g', hg', rest⟩ := ih.known x hx
        exact ⟨g', List.mem_append_left _ hg', rest⟩
      · refine List.forall_mem_append.2 ⟨ih.entered, List.forall_mem_singleton.2 fun h => ?_⟩
        rw [pending] at h
        cases h
    | accept group closedAt acceptedAt writable _ =>
      exact ih.accept arises.keyed closedAt acceptedAt writable
    | abandon group time writable => exact ih.abandon arises.keyed time writable
    | _ => exact { ih with }

end Biblio.Store
