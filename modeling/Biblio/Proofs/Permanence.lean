import Biblio.Catalog.Query
import Biblio.Proofs.Frame

/-! What a catalog never loses.

    Revisions and changelog entries stay as they are. A closed editgroup stays as it is with its
    edits, because every operation on an editgroup needs it to be one that can be worked on. An
    identity keeps its kind; once it is live it stays so, and once it was deleted no edit fits it
    any more. -/

namespace Biblio

/-- What an identity may have become later on. -/
structure Identity.MayBecome (x y : Identity) : Prop where
  id : y.id = x.id
  kind : y.kind = x.kind
  live : x.isLive = true → y.isLive = true
  deleted : x.isDeleted = true → y = x

theorem Identity.MayBecome.refl (x : Identity) : x.MayBecome x :=
  ⟨rfl, rfl, fun live => live, fun _ => rfl⟩

theorem Identity.MayBecome.trans {x y z : Identity} (h : x.MayBecome y) (h' : y.MayBecome z) :
    x.MayBecome z where
  id := h'.id.trans h.id
  kind := h'.kind.trans h.kind
  live live := h'.live (h.live live)
  deleted gone := by
    obtain rfl := h.deleted gone
    exact h'.deleted gone

namespace Store

/-- The later tables have all that is permanent of the earlier ones. -/
structure Retains (s t : Store) : Prop where
  revisions : s.revisions <+: t.revisions
  changelog : s.changelog <+: t.changelog
  /-- What was accepted or abandoned is still there with the same edits in the same order. -/
  closed : ∀ g ∈ s.editgroups, g.status ≠ .pending →
    g ∈ t.editgroups ∧ t.editsOf g.id = s.editsOf g.id
  identities : ∀ x ∈ s.identities, ∃ y ∈ t.identities, x.MayBecome y

section Retains
variable {s t u : Store}

theorem Retains.refl (s : Store) : s.Retains s where
  revisions := List.prefix_rfl
  changelog := List.prefix_rfl
  closed _ hg _ := ⟨hg, rfl⟩
  identities x hx := ⟨x, hx, .refl x⟩

theorem Retains.trans (h : s.Retains t) (h' : t.Retains u) : s.Retains u where
  revisions := h.revisions.trans h'.revisions
  changelog := h.changelog.trans h'.changelog
  closed g hg ended := by
    obtain ⟨hg, edits⟩ := h.closed g hg ended
    obtain ⟨hg, edits'⟩ := h'.closed g hg ended
    exact ⟨hg, edits'.trans edits⟩
  identities x hx := by
    obtain ⟨y, hy, may⟩ := h.identities x hx
    obtain ⟨z, hz, may'⟩ := h'.identities y hy
    exact ⟨z, hz, may.trans may'⟩

/-- An editgroup that was closed is not the one that can be worked on. -/
theorem Keyed.ne_of_hasWritable (keyed : s.Keyed) {g : EditgroupRow} (hg : g ∈ s.editgroups)
    (ended : g.status ≠ .pending) {group : EditgroupId} (writable : s.HasWritable group) :
    g.id ≠ group := by
  rintro rfl
  obtain ⟨g', hg', hid, pending, -⟩ := writable
  obtain rfl := keyed.editgroup_unique hg' hg hid
  exact ended pending

/-- Closing an editgroup that can be worked on leaves those alone that were closed before. -/
theorem Keyed.mem_closed (keyed : s.Keyed) {group : EditgroupId} (writable : s.HasWritable group)
    {status : EditgroupStatus} {time : Instant} {g : EditgroupRow} (hg : g ∈ s.editgroups)
    (ended : g.status ≠ .pending) : g ∈ (s.closed group status time).editgroups :=
  mem_closed_editgroups.2 (.inl ⟨hg, keyed.ne_of_hasWritable hg ended writable⟩)

/-- Edits that take effect leave what was deleted as it is. -/
theorem TakesAll.mayBecome {edits : List Edit} (keyed : s.Keyed)
    (distinct : (edits.map (·.ident)).Nodup) (takes : s.TakesAll edits) {x : Identity}
    (hx : x ∈ s.identities) : x.MayBecome (x.under edits) where
  id := Identity.under_id edits x
  kind := Identity.under_kind edits x
  live := Identity.under_isLive
  deleted gone := by
    rcases takes.under_cases keyed distinct hx with ⟨same, -⟩ | ⟨e, -, fits, -⟩
    · exact same
    · rw [fits.kept] at gone
      cases gone

theorem Change.retains {k : Deed} (arises : s.Arises) (step : Change s k t) : s.Retains t := by
  have keyed := arises.keyed
  have same := Retains.refl s
  cases step with
  | editor e _ _ _ => exact { same with }
  | editgroup g _ _ _ _ =>
    exact { same with closed := fun h hh _ => ⟨List.mem_append_left _ hh, rfl⟩ }
  | activate g _ _ => exact { same with }
  | revision body id time _ _ => exact { same with revisions := List.prefix_append _ _ }
  | stageNew x e may =>
    refine { same with closed := fun g hg ended => ⟨hg, ?_⟩, identities := fun y hy => ?_ }
    · exact editsOf_concat_of_ne (s := s) (keyed.ne_of_hasWritable hg ended may.group)
    · exact ⟨y, List.mem_append_left _ hy, .refl y⟩
  | stage x e may =>
    refine { same with closed := fun g hg ended => ⟨hg, ?_⟩ }
    exact editsOf_concat_of_ne (keyed.ne_of_hasWritable hg ended may.group)
  | remove e staged writable =>
    refine { same with closed := fun g hg ended => ⟨hg, ?_⟩ }
    exact keyed.editsOf_remove_of_ne staged (keyed.ne_of_hasWritable hg ended writable)
  | accept group closedAt acceptedAt writable takes =>
    refine { same with changelog := ?_, closed := ?_, identities := ?_ }
    · exact List.prefix_append _ _
    · exact fun g hg ended => ⟨keyed.mem_closed writable hg ended, rfl⟩
    · intro x hx
      refine ⟨_, List.mem_map_of_mem hx, ?_⟩
      exact takes.mayBecome keyed (keyed.inApplicationOrder_nodup group) hx
  | abandon group time writable =>
    exact { same with closed := fun g hg ended => ⟨keyed.mem_closed writable hg ended, rfl⟩ }

theorem Becomes.retains (h : s.Becomes t) (arises : s.Arises) : s.Retains t := by
  induction h with
  | refl => exact .refl s
  | tail before step ih =>
    obtain ⟨k, step⟩ := step
    exact ih.trans (step.retains (arises.becomes before))

/-! ### What is read of it -/

theorem Retains.revisionRow?_eq_some (h : s.Retains t) {rev : RevisionId} {r : RevisionRow}
    (there : s.revisionRow? rev = some r) : t.revisionRow? rev = some r := by
  obtain ⟨more, heq⟩ := h.revisions
  rw [revisionRow?] at there ⊢
  rw [← heq, List.find?_append, there, Option.some_or]

theorem Retains.getRevision_eq_ok (h : s.Retains t) {rev : RevisionId} {r : Revision}
    (there : s.getRevision rev = .ok r) : t.getRevision rev = .ok r := by
  obtain ⟨row, hrow, hread⟩ := Except.bind_eq_ok.1 there
  refine Except.bind_eq_ok.2 ⟨row, ?_, hread⟩
  exact found_eq_ok.2 (h.revisionRow?_eq_some (found_eq_ok.1 hrow))

theorem Retains.getChangelogEntry_eq_ok (h : s.Retains t) {seq : Int} {x : ChangelogEntry}
    (there : s.getChangelogEntry seq = .ok x) : t.getChangelogEntry seq = .ok x := by
  obtain ⟨more, heq⟩ := h.changelog
  rw [getChangelogEntry, found_eq_ok, changelogEntry?] at there ⊢
  rw [← heq, List.find?_append, there, Option.some_or]

/-- A closed editgroup keeps its entry in the changelog, or keeps having none. -/
theorem Retains.changelogOf?_eq (h : s.Retains t) (arises : s.Arises) (later : t.Arises)
    {g : EditgroupRow} (hg : g ∈ s.editgroups) (ended : g.status ≠ .pending) :
    t.changelogOf? g.id = s.changelogOf? g.id := by
  obtain ⟨hg', -⟩ := h.closed g hg ended
  cases entry : s.changelogOf? g.id with
  | some x =>
    obtain ⟨hx, hgroup⟩ := arises.logged.changelogOf?_eq_some.1 entry
    exact later.logged.changelogOf?_eq_some.2 ⟨h.changelog.subset hx, hgroup⟩
  | none =>
    -- without an entry it was not accepted, and then it has none later on, either
    rw [changelogOf?, List.find?_eq_none]
    intro x hx same
    obtain ⟨g', known, hid, accepted, -⟩ := later.logged.known x hx
    obtain rfl := later.keyed.editgroup_unique hg' known ((hid.trans (by simpa using same)).symm)
    obtain ⟨y, hy, hgroup⟩ := arises.logged.entered g hg accepted
    rw [arises.logged.changelogOf?_eq_some.2 ⟨hy, hgroup⟩] at entry
    cases entry

theorem Retains.getEditgroupHeader_eq (h : s.Retains t) (keyed : s.Keyed) (later : t.Keyed)
    {g : EditgroupRow} (hg : g ∈ s.editgroups) (ended : g.status ≠ .pending) :
    t.getEditgroupHeader g.id = s.getEditgroupHeader g.id := by
  have row : s.editgroupRow? g.id = some g := keyed.editgroupRow?_eq_some.2 ⟨hg, rfl⟩
  have row' : t.editgroupRow? g.id = some g :=
    later.editgroupRow?_eq_some.2 ⟨(h.closed g hg ended).1, rfl⟩
  rw [getEditgroupHeader, getEditgroupHeader, row, row']

theorem Retains.getEditgroup_eq (h : s.Retains t) (arises : s.Arises) (later : t.Arises)
    {g : EditgroupRow} (hg : g ∈ s.editgroups) (ended : g.status ≠ .pending) :
    t.getEditgroup g.id = s.getEditgroup g.id := by
  rw [getEditgroup, getEditgroup, h.getEditgroupHeader_eq arises.keyed later.keyed hg ended,
    (h.closed g hg ended).2, h.changelogOf?_eq arises later hg ended]

end Retains

end Store

/-! ### Operations on closed editgroups -/

/-- Where the tables arise, the write succeeds only if the editgroup can be worked on. -/
def Write.NeedsWritable {α : Type} (w : Write α) (group : EditgroupId) : Prop :=
  ∀ ⦃src : Source⦄ ⦃c d : Catalog⦄ ⦃a : α⦄, c.Arises → w src c = (.ok a, d) → c.HasWritable group

namespace Write.NeedsWritable

variable {α β : Type} {group : EditgroupId}

theorem bind {w : Write α} (h : w.NeedsWritable group) (f : α → Write β) :
    (w >>= f).NeedsWritable group := by
  intro src c d b arises hrun
  obtain ⟨a, d', first, -⟩ := Write.bind_eq_ok.1 hrun
  exact h arises first

theorem look_bind (read : Store → Except CatalogError α) {f : α → Write β}
    (h : ∀ a, (f a).NeedsWritable group) : (Store.look read >>= f).NeedsWritable group := by
  intro src c d b arises hrun
  obtain ⟨a, -, second⟩ := Store.look_bind_eq_ok.1 hrun
  exact h a arises second

/-- A new revision opens no editgroup. -/
theorem createRevision_bind (body : EntityBody) {f : RevisionId → Write β}
    (h : ∀ rev, (f rev).NeedsWritable group) :
    (Store.createRevision body >>= f).NeedsWritable group := by
  intro src c d b arises hrun
  obtain ⟨rev, d', created, second⟩ := Write.bind_eq_ok.1 hrun
  have there := (Store.createRevision_does created).arises arises
  obtain ⟨-, -, -, rfl⟩ := Store.createRevision_eq_ok.1 created
  have writable := h rev there second
  exact writable

end Write.NeedsWritable

namespace Store

theorem stageEdit_needsWritable (group : EditgroupId) (target : EditTarget)
    (previous : Option RevisionId) (action : EditAction) :
    (stageEdit group target previous action).NeedsWritable group := by
  intro src c d e arises h
  cases target with
  | new kind =>
    obtain ⟨rfl, -, -, x, -, may, -⟩ := stageEdit_new arises.keyed h
    exact may.group
  | existing id =>
    obtain ⟨rfl, -, -, x, -, may, -⟩ := stageEdit_existing arises.keyed h
    exact may.group

theorem stageNew_needsWritable (group : EditgroupId) (body : EntityBody) :
    (stageNew group body).NeedsWritable group :=
  .createRevision_bind body fun _ => stageEdit_needsWritable _ _ _ _

theorem createEntity_needsWritable (group : EditgroupId) (body : EntityBody) :
    (createEntity group body).NeedsWritable group := by
  have alone : ∀ body', (pure body' >>= stageNew group : Write Edit).NeedsWritable group := by
    intro body' src c d e arises h
    obtain ⟨_, _, first, second⟩ := Write.bind_eq_ok.1 h
    obtain ⟨rfl, rfl⟩ := Write.pure_eq_ok.1 first
    exact stageNew_needsWritable group _ arises second
  unfold createEntity
  cases body with
  | release r =>
    simp only [withWork]
    split
    · exact alone _
    · exact .bind (.bind (stageNew_needsWritable group _) _) _
  | _ => exact alone _

/-- An operation on an editgroup succeeds only if that can be worked on. -/
theorem Arises.hasWritable_of_answer {α : Type} {src : Source} {c : Catalog} (arises : c.Arises)
    (op : Operation α) {group : EditgroupId} (named : op.group? c.toStore = some group) {a : α}
    (ok : op.answer src c = .ok a) : c.HasWritable group := by
  have needed : ∀ {w : Write α}, w.NeedsWritable group → (w.run src c).1 = .ok a →
      c.HasWritable group := fun needs ok => needs arises (Write.run_eq_ok.1 (Prod.ext ok rfl))
  cases op with
  | stageEdit g target previous action =>
    obtain rfl := Option.some.inj named
    exact needed (stageEdit_needsWritable _ _ _ _) ok
  | removeEdit id =>
    obtain ⟨he, rfl, writable, -⟩ := removeEdit_eq_ok arises.keyed
      (Write.run_eq_ok.1 (Prod.ext ok rfl))
    have found : c.edit? a.id = some a := (find?_eq_some_iff arises.keyed.edits).2 ⟨he, rfl⟩
    rw [Operation.group?, found] at named
    obtain rfl := Option.some.inj named
    exact writable
  | accept g =>
    obtain rfl := Option.some.inj named
    rcases arises.answer_accept src g with ⟨-, -, writable, -⟩ | ⟨err, error, -⟩
    · exact writable
    · cases error.symm.trans ok
  | abandon g =>
    obtain rfl := Option.some.inj named
    exact ((abandon_eq_ok arises.keyed).1 (Write.run_eq_ok.1 (Prod.ext ok rfl))).1
  | createEntity g body =>
    obtain rfl := Option.some.inj named
    exact needed (createEntity_needsWritable _ body) ok
  | updateEntity g id body =>
    obtain rfl := Option.some.inj named
    refine needed (.look_bind _ fun x => ?_) ok
    exact .createRevision_bind body fun _ => stageEdit_needsWritable _ _ _ _
  | deleteEntity g id =>
    obtain rfl := Option.some.inj named
    exact needed (.look_bind _ fun x => stageEdit_needsWritable _ _ _ _) ok
  | redirectEntity g id target =>
    obtain rfl := Option.some.inj named
    exact needed (.look_bind _ fun x => stageEdit_needsWritable _ _ _ _) ok
  | _ => cases named

/-- An operation on an editgroup that was closed fails. -/
theorem Arises.answer_of_closed {α : Type} {c : Catalog} (arises : c.Arises) {g : EditgroupRow}
    (hg : g ∈ c.editgroups) (ended : g.status ≠ .pending) (op : Operation α)
    (named : op.group? c.toStore = some g.id) (src : Source) :
    ∃ err, op.answer src c = .error err := by
  cases answer : op.answer src c with
  | error err => exact ⟨err, rfl⟩
  | ok a =>
    have writable := arises.hasWritable_of_answer op named answer
    exact absurd rfl (arises.keyed.ne_of_hasWritable hg ended writable)

end Store

namespace Catalog

/-- History is append-only. Whatever operations follow, revisions and changelog entries stay as
    they are; so does an editgroup that was accepted or abandoned, with its edits in their order,
    and every operation on it fails. An identity keeps its kind, stays live if it is, and stays as
    it is if it was deleted. -/
theorem Reachable.history_is_kept {src : Source} {c d : Catalog} (h : Reachable src c)
    (run : Leads src c d) (handle : Handle) :
    (c.revisions <+: d.revisions ∧
        ∀ id r, (Query.revision id).answer handle c.toStore = .ok r →
          (Query.revision id).answer handle d.toStore = .ok r) ∧
      (c.changelog <+: d.changelog ∧
        ∀ seq x, (Query.changelogEntry seq).answer handle c.toStore = .ok x →
          (Query.changelogEntry seq).answer handle d.toStore = .ok x) ∧
      (∀ g ∈ c.editgroups, g.status ≠ .pending →
        g ∈ d.editgroups ∧ d.editsOf g.id = c.editsOf g.id ∧
        (Query.editgroup g.id).answer handle d.toStore =
          (Query.editgroup g.id).answer handle c.toStore ∧
        ∀ {α : Type} (op : Operation α), op.group? d.toStore = some g.id →
          ∀ src', ∃ err, op.answer src' d = .error err) ∧
      ∀ x ∈ c.identities, ∃ y ∈ d.identities, x.MayBecome y := by
  have arises := h.arises
  have becomes := run.becomes arises
  have later := arises.becomes becomes
  have retains := becomes.retains arises
  refine ⟨⟨retains.revisions, fun id r => retains.getRevision_eq_ok⟩,
    ⟨retains.changelog, fun seq x => retains.getChangelogEntry_eq_ok⟩, ?_, retains.identities⟩
  intro g hg ended
  obtain ⟨hg', edits⟩ := retains.closed g hg ended
  refine ⟨hg', edits, retains.getEditgroup_eq arises later hg ended, fun op named src' => ?_⟩
  exact later.answer_of_closed hg' ended op named src'

/-- An accepted editgroup that created a work, one that deleted it, and an abandoned one with an
    edit in it. -/
def concluded : Catalog := Catalog.empty.play .counting [
  ⟨.createEditor "someone"⟩, ⟨.autoaccept (.nth 0) (.work {})⟩,
  ⟨.createEditgroup (.nth 0) none .empty⟩, ⟨.deleteEntity (.nth 5) (.nth 3)⟩, ⟨.accept (.nth 5)⟩,
  ⟨.createEditgroup (.nth 0) none .empty⟩, ⟨.createEntity (.nth 7) (.work {})⟩,
  ⟨.abandon (.nth 7)⟩]

/-- Later on another work is accepted, and a change of the deleted one is tried. -/
def resumed : Catalog := concluded.play .counting [
  ⟨.autoaccept (.nth 0) (.work {})⟩, ⟨.createEditgroup (.nth 0) none .empty⟩,
  ⟨.updateEntity (.nth 15) (.nth 3) (.work {})⟩]

theorem resumed_history_is_kept :
    concluded.editgroups.map (·.status) = [.accepted, .accepted, .abandoned] ∧
      (∀ g ∈ concluded.editgroups, g ∈ resumed.editgroups ∧
        resumed.editsOf g.id = concluded.editsOf g.id ∧
        (∃ err, (Operation.accept g.id).answer .counting resumed = .error err) ∧
        ∀ body, ∃ err, (Operation.createEntity g.id body).answer .counting resumed =
          .error err) ∧
      (∃ err, (Operation.removeEdit (.nth 10)).answer .counting resumed = .error err) ∧
      ∃ x ∈ concluded.identities, x.isDeleted = true ∧ x ∈ resumed.identities := by
  obtain ⟨-, -, groups, identities⟩ := Reachable.history_is_kept
    (show Reachable .counting concluded from leads_play ..)
    (show Leads .counting concluded resumed from leads_play ..) ⟨{}, .nth 0⟩
  have ended : ∀ g ∈ concluded.editgroups, g.status ≠ .pending := by decide +kernel
  refine ⟨by decide +kernel, fun g hg => ?_, ?_, ?_⟩
  · obtain ⟨there, edits, -, fails⟩ := groups g hg (ended g hg)
    exact ⟨there, edits, fails (.accept g.id) rfl .counting,
      fun body => fails (.createEntity g.id body) rfl .counting⟩
  · obtain ⟨g, hg, holds⟩ : ∃ g ∈ concluded.editgroups,
        (Operation.removeEdit (.nth 10)).group? resumed.toStore = some g.id := by
      decide +kernel
    obtain ⟨-, -, -, fails⟩ := groups g hg (ended g hg)
    exact fails (.removeEdit (.nth 10)) holds .counting
  · obtain ⟨x, hx, gone⟩ : ∃ x ∈ concluded.identities, x.isDeleted = true := by decide +kernel
    obtain ⟨y, hy, may⟩ := identities x hx
    exact ⟨x, hx, gone, may.deleted gone ▸ hy⟩

end Catalog

end Biblio
