import Biblio.Catalog.Query
import Biblio.Proofs.Frame

/-! The changelog as a record of what was accepted.

    Its entries are the answers of the acceptances, in order and numbered without a gap. The status
    of an editgroup, the time at which it was closed and the entry that names it are written at
    different moments, but keep in step. -/

namespace Biblio

namespace Catalog

/-- The entries of what is accepted by operations that follow each other. -/
def acceptances (src : Source) : List Event → Catalog → List ChangelogEntry
  | [], _ => []
  | e :: events, c =>
    (e.operation.entry? src c).toList ++ acceptances src events (e.operation.after src c)

/-- A run carries the changelog on by what it accepts. -/
theorem play_changelog {src : Source} {c : Catalog} (arises : c.Arises) (events : List Event) :
    (c.play src events).changelog = c.changelog ++ c.acceptances src events := by
  induction events generalizing c with
  | nil => exact (List.append_nil _).symm
  | cons e events ih =>
    rw [play_cons, ih (arises.after src e.operation), arises.after_changelog src e.operation,
      List.append_assoc, acceptances]

end Catalog

namespace Store

section Numbers
variable {s : Store}

/-- The number of an entry is its place, counted from one. -/
theorem Logged.seq_eq (h : s.Logged) {i : Nat} {x : ChangelogEntry}
    (hx : s.changelog[i]? = some x) : x.seq = i + 1 := by
  obtain ⟨hi, rfl⟩ := List.getElem?_eq_some_iff.1 hx
  simpa [hi] using congrArg (·[i]?) h.seqs

theorem Logged.nodup_seqs (h : s.Logged) : (s.changelog.map (·.seq)).Nodup :=
  List.pairwise_map.2 (h.pairwise_seq.imp fun hlt => by omega)

theorem Logged.changelogEntry?_eq_some (h : s.Logged) {seq : Int} {x : ChangelogEntry} :
    s.changelogEntry? seq = some x ↔ x ∈ s.changelog ∧ x.seq = seq :=
  find?_eq_some_iff h.nodup_seqs

theorem Logged.changelogEntry?_eq (h : s.Logged) (i : Nat) :
    s.changelogEntry? (i + 1) = s.changelog[i]? := by
  ext x
  rw [h.changelogEntry?_eq_some]
  constructor
  · rintro ⟨hx, hseq⟩
    obtain ⟨j, hj⟩ := List.mem_iff_getElem?.1 hx
    have := h.seq_eq hj
    obtain rfl : j = i := by omega
    exact hj
  · exact fun hx => ⟨List.mem_of_getElem? hx, h.seq_eq hx⟩

/-- There is an entry for each number up to that of the last one, and for no other. -/
theorem Logged.exists_changelogEntry?_iff (h : s.Logged) {seq : Int} :
    (∃ x, s.changelogEntry? seq = some x) ↔ 1 ≤ seq ∧ seq ≤ s.changelog.length := by
  constructor
  · rintro ⟨x, hx⟩
    obtain ⟨mem, rfl⟩ := h.changelogEntry?_eq_some.1 hx
    obtain ⟨i, hi⟩ := List.mem_iff_getElem?.1 mem
    have := (List.getElem?_eq_some_iff.1 hi).1
    have := h.seq_eq hi
    omega
  · rintro ⟨first, last⟩
    obtain ⟨i, rfl⟩ : ∃ i : Nat, seq = i + 1 := ⟨(seq - 1).toNat, by omega⟩
    rw [h.changelogEntry?_eq]
    exact ⟨_, List.getElem?_eq_getElem (by omega)⟩

/-- The last entry is the one with the highest number. -/
theorem Logged.latestChangelog?_eq (h : s.Logged) :
    s.latestChangelog? = s.changelogEntry? s.changelog.length := by
  rw [latestChangelog?, h.sortedChangelog_eq, List.getLast?_eq_getElem?]
  cases hlog : s.changelog with
  | nil => simp [hlog, Store.changelogEntry?]
  | cons x xs =>
    have := h.changelogEntry?_eq xs.length
    rw [hlog] at this
    simpa using this.symm

end Numbers

/-- The changelog and the editgroups keep in step. -/
structure InStep (s : Store) : Prop where
  accepted : ∀ g ∈ s.editgroups,
    (g.status = .accepted ↔ ∃ x, s.changelog.filter (·.editgroup == g.id) = [x])
  unaccepted : ∀ g ∈ s.editgroups, g.status ≠ .accepted →
    s.changelog.filter (·.editgroup == g.id) = []
  named : ∀ x ∈ s.changelog, ∃ g ∈ s.editgroups, g.id = x.editgroup ∧ g.status = .accepted
  closed : ∀ g ∈ s.editgroups, (g.closedAt.isSome = true ↔ g.status ≠ .pending)

section Step
variable {s : Store}

/-- An editgroup was closed at some time exactly if it is not open any more. -/
theorem Arises.closedAt_isSome_iff (h : s.Arises) :
    ∀ g ∈ s.editgroups, (g.closedAt.isSome = true ↔ g.status ≠ .pending) := by
  have closing : ∀ {s : Store} {group : EditgroupId} {status : EditgroupStatus} {time : Instant},
      status ≠ .pending → (∀ g ∈ s.editgroups, (g.closedAt.isSome = true ↔ g.status ≠ .pending)) →
      ∀ g ∈ (s.closed group status time).editgroups,
        (g.closedAt.isSome = true ↔ g.status ≠ .pending) := by
    intro s group status time ends ih g hg
    rcases mem_closed_editgroups.1 hg with ⟨hg, -⟩ | ⟨g', -, -, rfl⟩
    · exact ih g hg
    · exact iff_of_true rfl ends
  induction h using Arises.induction with
  | empty => exact fun g hg => nomatch hg
  | change arises step ih =>
    cases step with
    | editgroup g pending unclosed _ _ =>
      refine List.forall_mem_append.2 ⟨ih, List.forall_mem_singleton.2 ?_⟩
      simp [pending, unclosed]
    | accept group closedAt acceptedAt _ _ => exact closing (by decide) ih
    | abandon group time _ => exact closing (by decide) ih
    | _ => exact ih

theorem Arises.inStep (arises : s.Arises) : s.InStep := by
  have logged := arises.logged
  have unaccepted : ∀ g ∈ s.editgroups, g.status ≠ .accepted →
      s.changelog.filter (·.editgroup == g.id) = [] := by
    intro g hg status
    rw [List.filter_eq_nil_iff]
    intro x hx same
    obtain ⟨g', hg', hid, accepted, -⟩ := logged.known x hx
    obtain rfl := arises.keyed.editgroup_unique hg hg' ((hid.trans (by simpa using same)).symm)
    exact status accepted
  refine ⟨fun g hg => ⟨fun accepted => ?_, fun ⟨x, one⟩ => ?_⟩, unaccepted, fun x hx => ?_,
    arises.closedAt_isSome_iff⟩
  · obtain ⟨x, hx, hgroup⟩ := logged.entered g hg accepted
    exact ⟨x, hgroup ▸ filter_eq_singleton logged.groups hx⟩
  · by_contra status
    rw [unaccepted g hg status] at one
    cases one
  · obtain ⟨g, hg, hid, accepted, -⟩ := logged.known x hx
    exact ⟨g, hg, hid, accepted⟩

end Step

end Store

namespace Catalog

/-- The changelog records what was accepted, in order and without a gap, and it keeps in step with
    the editgroups. Reading it by numbers and reading it by editgroups are inverse to each other,
    and the last entry is the one with the highest number. -/
theorem Reachable.changelog_records {src : Source} {c : Catalog} (h : Reachable src c)
    (handle : Handle) :
    (∀ events, Catalog.empty.play src events = c →
        c.changelog = Catalog.empty.acceptances src events) ∧
      (c.changelog.map (·.seq) =
        (List.range c.changelog.length).map fun i : Nat => (i : Int) + 1) ∧
      c.InStep ∧
      (c.changelog = [] → Query.latestChangelog.answer handle c.toStore = .ok none) ∧
      (c.changelog ≠ [] → ∃ x, Query.latestChangelog.answer handle c.toStore = .ok (some x) ∧
        (Query.changelogEntry c.changelog.length).answer handle c.toStore = .ok x) ∧
      (∀ seq, (∃ x, (Query.changelogEntry seq).answer handle c.toStore = .ok x) ↔
        1 ≤ seq ∧ seq ≤ c.changelog.length) ∧
      (∀ g ∈ c.editgroups, g.status = .accepted →
        ∃ x, (Query.changelogOf g.id).answer handle c.toStore = .ok (some x) ∧
          (Query.changelogEntry x.seq).answer handle c.toStore = .ok x ∧ x.editgroup = g.id) ∧
      ∀ seq x, (Query.changelogEntry seq).answer handle c.toStore = .ok x →
        x.seq = seq ∧ (Query.changelogOf x.editgroup).answer handle c.toStore = .ok (some x) := by
  have arises := h.arises
  have logged := arises.logged
  have entry : ∀ {seq x}, (Query.changelogEntry seq).answer handle c.toStore = .ok x ↔
      c.changelogEntry? seq = some x := Store.found_eq_ok
  have latest : Query.latestChangelog.answer handle c.toStore =
      .ok (c.changelogEntry? c.changelog.length) := congrArg Except.ok logged.latestChangelog?_eq
  have ofGroup : ∀ {x : ChangelogEntry}, x ∈ c.changelog →
      (Query.changelogOf x.editgroup).answer handle c.toStore = .ok (some x) := fun hx =>
    congrArg Except.ok (logged.changelogOf?_eq_some.2 ⟨hx, rfl⟩)
  refine ⟨?_, logged.seqs, arises.inStep, ?_, ?_, ?_, ?_, ?_⟩
  · rintro events rfl
    exact play_changelog (show Catalog.empty.Arises from .refl) events
  · intro nothing
    rw [latest, Store.changelogEntry?, nothing]
    rfl
  · intro something
    have := List.length_pos_iff.2 something
    obtain ⟨x, hx⟩ := logged.exists_changelogEntry?_iff.2
      (show 1 ≤ (c.changelog.length : Int) ∧ _ from ⟨by omega, Int.le_refl _⟩)
    exact ⟨x, by rw [latest, hx], entry.2 hx⟩
  · intro seq
    simp only [entry, logged.exists_changelogEntry?_iff]
  · intro g hg accepted
    obtain ⟨x, hx, hgroup⟩ := logged.entered g hg accepted
    exact ⟨x, hgroup ▸ ofGroup hx, entry.2 (logged.changelogEntry?_eq_some.2 ⟨hx, rfl⟩), hgroup⟩
  · intro seq x hx
    obtain ⟨hx, hseq⟩ := logged.changelogEntry?_eq_some.1 (entry.1 hx)
    exact ⟨hseq, ofGroup hx⟩

/-- Two editgroups are accepted, a third one is abandoned, and a fourth one stays open; accepting
    what is closed comes to nothing. -/
def recording : List Event := [
  ⟨.createEditor "someone"⟩, ⟨.autoaccept (.nth 0) (.work {})⟩,
  ⟨.createEditgroup (.nth 0) none .empty⟩, ⟨.abandon (.nth 5)⟩, ⟨.accept (.nth 5)⟩,
  ⟨.createEditgroup (.nth 0) none .empty⟩, ⟨.createEntity (.nth 6) (.work {})⟩,
  ⟨.accept (.nth 6)⟩, ⟨.accept (.nth 6)⟩, ⟨.createEditgroup (.nth 0) none .empty⟩]

def recorded : Catalog := Catalog.empty.play .counting recording

theorem recorded_changelog_records :
    recorded.editgroups.map (·.status) = [.accepted, .abandoned, .accepted, .pending] ∧
      recorded.InStep ∧
      ((Catalog.empty.acceptances .counting recording).map fun x => (x.seq, x.editgroup)) =
        [(1, .nth 1), (2, .nth 6)] ∧
      ∃ x, Query.latestChangelog.answer ⟨{}, .nth 0⟩ recorded.toStore = .ok (some x) ∧
        x.editgroup = .nth 6 := by
  obtain ⟨record, -, inStep, -, latest, -⟩ := Reachable.changelog_records
    (show Reachable .counting recorded from leads_play ..) ⟨{}, .nth 0⟩
  have entries : (recorded.changelog.map fun x => (x.seq, x.editgroup)) =
      [(1, .nth 1), (2, .nth 6)] := by
    decide +kernel
  refine ⟨by decide +kernel, inStep, record recording rfl ▸ entries, ?_⟩
  obtain ⟨x, hx, numbered⟩ := latest fun nothing => by simp [nothing] at entries
  have last : ((Query.changelogEntry recorded.changelog.length).answer ⟨{}, .nth 0⟩
      recorded.toStore).map (·.editgroup) = .ok (.nth 6) := by
    decide +kernel
  rw [numbered] at last
  exact ⟨x, hx, Except.ok.inj last⟩

end Catalog

end Biblio
