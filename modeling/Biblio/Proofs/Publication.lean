import Biblio.Proofs.Entries
import Biblio.Proofs.Freshness
import Biblio.Proofs.Legibility
import Biblio.Proofs.NewEntities

/-! Creating an entity and accepting it at once.

    This takes two writes, each of which is all or nothing by itself: the entity is drafted in an
    editgroup of its own, and that is accepted. But once the first has succeeded the second cannot
    fail, for nothing else knows of the identities that were drafted. So both are one: the entity is
    made live, or nothing changes, and what decides is whether there is the editor and whether the
    body is right. -/

namespace Biblio

/-! ### Drafts that are accepted -/

/-- The identity of a draft that was accepted. -/
def Draft.made {group : EditgroupId} (p : Draft group) : Identity :=
  { p.identity with revision := some p.revision.id, isLive := true }

/-- The tables with drafts accepted in an editgroup of their own. -/
def Store.withAccepted {group : EditgroupId} (row : EditgroupRow) (drafts : List (Draft group))
    (entry : ChangelogEntry) (s : Store) : Store where
  editors := s.editors
  editgroups := s.editgroups ++ [row]
  revisions := s.revisions ++ drafts.map (·.revision)
  identities := s.identities ++ drafts.map (·.made)
  edits := s.edits ++ drafts.map (·.edit)
  changelog := s.changelog ++ [entry]

/-- What is done when an entity was created and accepted at once. -/
structure Store.IsPublished {group : EditgroupId} (s t : Store) (editor : EditorId)
    (body : EntityBody) (id : EntityId) (entry : ChangelogEntry) (row : EditgroupRow)
    (drafts : List (Draft group)) : Prop where
  /-- The entity has this body, and a work of its own if it is a release that names none. -/
  draftedBy : body.DraftedBy drafts
  last : (drafts.map (·.identity.id)).getLast? = some id
  new : ∀ p ∈ drafts, ∀ y ∈ s.identities, y.id ≠ p.identity.id
  /-- The editgroup is a new one. -/
  newGroup : row.id = group ∧ ∀ g ∈ s.editgroups, g.id ≠ group
  entered : entry.seq = s.changelog.length + 1 ∧ entry.editgroup = group
  /-- Nothing else changes: all that there was stays as it is. -/
  tables : t = s.withAccepted row drafts entry
  /-- What was drafted is active, with a revision of its body; it is shown with that, unless it
      nests too deeply. -/
  active : ∀ p ∈ drafts, ∃ x ∈ t.identities, x.id = p.identity.id ∧ x.kind = p.body.kind ∧
    x.HasShape .active ∧ ∃ r ∈ t.revisions, x.revision = some r.id ∧ r.IsOf p.body
  shown : ∀ p ∈ drafts, t.getEntity p.identity.id =
    if p.body.nesting ≤ Json.maxDepth then .ok (.active p.made p.body.reread)
    else .error (.storage .undecodable)
  /-- The editgroup belongs to the editor, is accepted and holds the edits of the drafts. -/
  editgroup : ∃ g, t.getEditgroup group = .ok g ∧ g.editor = editor ∧ g.status = .accepted ∧
    g.edits = drafts.map (·.edit) ∧ g.changelog = some entry
  latest : t.latestChangelog? = some entry

namespace Draft

variable {group : EditgroupId} (p : Draft group)

theorem made_active : p.made.HasShape .active := by
  obtain ⟨-, kept, -, straight⟩ := p.identity_wip
  exact ⟨rfl, kept, rfl, straight⟩

/-- To accept the edit of a draft is to make its identity live with its revision. -/
theorem under_edits {edits : List Edit} (distinct : (edits.map (·.ident)).Nodup)
    (he : p.edit ∈ edits) : p.identity.under edits = p.made := by
  obtain ⟨-, -, -, straight⟩ := p.identity_wip
  rw [Identity.under_of_mem distinct he p.fits.ident, p.edit_action, Identity.after, made, straight]

end Draft

namespace Store

section Accepted
variable {s : Store} {group : EditgroupId} {row : EditgroupRow} {drafts : List (Draft group)}

/-- An editgroup that is not there yet has no other edits than those of drafts that are made. -/
theorem Arises.editsOf_drafts (arises : s.Arises) (new : ∀ g ∈ s.editgroups, g.id ≠ group)
    (drafts : List (Draft group)) : (s.withDrafts drafts).editsOf group = drafts.map (·.edit) := by
  have none : s.editsOf group = [] := by
    rw [editsOf, List.filter_eq_nil_iff]
    intro e he here
    obtain ⟨g, hg, hid, -⟩ := (arises.grounded.edits e he).editgroup
    exact new g hg (hid.trans (beq_iff_eq.1 here))
  rw [editsOf_withDrafts, none, List.nil_append]

/-- Drafts take effect: nothing else knows of their identities. -/
theorem Keyed.takesAll_drafts {t : Store} (keyed : t.Keyed)
    (edits : t.editsOf group = drafts.map (·.edit))
    (there : ∀ p ∈ drafts, p.identity ∈ t.identities) :
    t.TakesAll (inApplicationOrder (t.editsOf group)) := by
  refine keyed.takesAll_of_fits fun e he => ?_
  rw [edits] at he
  obtain ⟨p, hp, rfl⟩ := List.mem_map.1 he
  exact ⟨by rw [p.edit_action]; rfl, p.identity, there p hp, p.fits⟩

section Rows
variable {α : Type} {test : α → Bool} {change : α → α} {rows : List α}

/-- Rows of which none passes the test stay as they are. -/
theorem changeWhere_of_none (none : ∀ x ∈ rows, ¬test x = true) :
    changeWhere test change rows = rows :=
  (List.map_congr_left fun x hx => if_neg (none x hx)).trans (List.map_id _)

theorem changeWhere_concat (none : ∀ x ∈ rows, ¬test x = true) {x : α} (passes : test x = true) :
    changeWhere test change (rows ++ [x]) = rows ++ [change x] := by
  rw [changeWhere, List.map_append, List.map_singleton, if_pos passes]
  exact congrArg (· ++ _) (changeWhere_of_none none)

end Rows

/-- Nobody works on an editgroup that is not there. -/
theorem Arises.not_active_of_new (arises : s.Arises) (new : ∀ g ∈ s.editgroups, g.id ≠ group) :
    ∀ e ∈ s.editors, e.activeEditgroup ≠ some group := by
  intro e he active
  obtain ⟨g, hg, hid, -⟩ := arises.works_on e he group active
  exact new g hg hid

/-- To accept drafts of new identities leaves all other identities as they are. -/
theorem map_under_drafts (distinct : ((drafts.map (·.edit)).map (·.ident)).Nodup)
    (new : ∀ p ∈ drafts, ∀ y ∈ s.identities, y.id ≠ p.identity.id) :
    (s.identities ++ drafts.map (·.identity)).map (·.under (drafts.map (·.edit))) =
      s.identities ++ drafts.map (·.made) := by
  have old : ∀ y ∈ s.identities, y.under (drafts.map (·.edit)) = y := by
    refine fun y hy => Identity.under_of_forall_ne fun e he => ?_
    obtain ⟨p, hp, rfl⟩ := List.mem_map.1 he
    rw [p.edit_isOf.ident]
    exact (new p hp y hy).symm
  rw [List.map_append, List.map_map, List.map_congr_left old, List.map_id']
  exact congrArg _ (List.map_congr_left fun p hp =>
    p.under_edits distinct (List.mem_map_of_mem hp))

/-- The tables behind the acceptance of drafts in an editgroup of their own. -/
theorem Arises.accepted_drafts (arises : s.Arises) {t : Store} (keyed : t.Keyed)
    (tables : t = { s with editgroups := s.editgroups ++ [row] }.withDrafts drafts)
    (own : row.id = group) (newGroup : ∀ g ∈ s.editgroups, g.id ≠ group)
    (new : ∀ p ∈ drafts, ∀ y ∈ s.identities, y.id ≠ p.identity.id)
    (edits : t.editsOf group = drafts.map (·.edit)) (closedAt acceptedAt : Instant) :
    t.accepted group closedAt acceptedAt =
      s.withAccepted { row with status := .accepted, closedAt := some closedAt } drafts
        ⟨s.nextSeq, group, acceptedAt⟩ := by
  have distinct := keyed.editsOf_nodup group
  -- none of the edits redirects, but which of them comes first does not matter anyway
  have order := written_of_perm (s := t) distinct (inApplicationOrder_perm (t.editsOf group))
  rw [accepted, ← order]
  rw [edits] at distinct ⊢
  subst tables
  have editors : changeWhere (·.activeEditgroup == some group)
      (fun e : Editor => { e with activeEditgroup := none }) s.editors = s.editors :=
    changeWhere_of_none fun e he => by simpa using arises.not_active_of_new newGroup e he
  have editgroups : changeWhere (·.id == group)
      (fun g : EditgroupRow => { g with status := .accepted, closedAt := some closedAt })
        (s.editgroups ++ [row]) =
      s.editgroups ++ [{ row with status := .accepted, closedAt := some closedAt }] :=
    changeWhere_concat (fun g hg => by simpa using newGroup g hg) (beq_iff_eq.2 own)
  simp only [closed, Store.written, withDrafts, withAccepted, editors, editgroups,
    map_under_drafts distinct new]
  rfl

/-- The entity of a draft that was accepted is shown with its body, unless that nests too deeply. -/
theorem Arises.getEntity_made (arises : s.Arises) {p : Draft group} (hx : p.made ∈ s.identities)
    (hr : p.revision ∈ s.revisions) : s.getEntity p.identity.id =
      if p.body.nesting ≤ Json.maxDepth then .ok (.active p.made p.body.reread)
      else .error (.storage .undecodable) :=
  (arises.keyed.getEntity_of_mem hx).trans
    (arises.viewOf_of_hasBody ⟨hx, p.made_active.state_eq, p.revision, hr, rfl, p.revision_isOf⟩)

/-- An editgroup without metadata is read with its edits and its changelog entry. -/
theorem Keyed.getEditgroup_of_bare (keyed : s.Keyed) (hrow : row ∈ s.editgroups)
    (bare : row.extra = none) : s.getEditgroup row.id = .ok {
      id := row.id
      editor := row.editor
      status := row.status
      description := row.description
      extra := .empty
      createdAt := row.createdAt
      closedAt := row.closedAt
      edits := s.editsOf row.id
      changelog := s.changelogOf? row.id } := by
  have there : s.editgroupRow? row.id = some row := keyed.editgroupRow?_eq_some.2 ⟨hrow, rfl⟩
  simp only [getEditgroup, getEditgroupHeader, there, found, Except.ok_bind, headerOfRow, bare]
  rfl

/-- The last entry is the one that was appended last. -/
theorem Logged.latestChangelog?_concat (logged : s.Logged) {entries : List ChangelogEntry}
    {entry : ChangelogEntry} (log : s.changelog = entries ++ [entry]) :
    s.latestChangelog? = some entry := by
  rw [latestChangelog?, logged.sortedChangelog_eq, log, List.getLast?_concat]

end Accepted

section Publication
variable {src : Source} {c d : Catalog} {editor : EditorId} {body : EntityBody}
  {group : EditgroupId} {e : Edit}

/-- What drafting an entity in an editgroup of its own does, for an editor who is there and with a
    body that is right. -/
theorem Arises.stageAlone_creates (arises : c.Arises)
    (ok : stageAlone editor body src c = (.ok (group, e), d)) :
    (∃ f ∈ c.editors, f.id = editor) ∧ c.bodyFaults body = [] ∧
      (∀ g ∈ c.editgroups, g.id ≠ group) ∧ ∃ (time : Instant) (drafts : List (Draft group)),
        Creates { c.toStore with
          editgroups := c.editgroups ++
            [newEditgroup editor (some "autoaccept") .empty group time] }
          d.toStore body drafts e := by
  obtain ⟨g, c', created, ok⟩ := Write.bind_eq_ok.1 ok
  obtain ⟨f, d', staged, ok⟩ := Write.bind_eq_ok.1 ok
  obtain ⟨same, rfl⟩ := Write.pure_eq_ok.1 ok
  obtain ⟨rfl, rfl⟩ := Prod.mk.inj same
  have there := (createEditgroup_does created).arises arises
  obtain ⟨known, new, -, rfl⟩ := createEditgroup_eq_ok.1 created
  obtain ⟨-, right, drafts, creates⟩ := there.createEntity_creates staged
  exact ⟨known, right, new, _, drafts, creates⟩

/-- An entity is drafted for an editor who is there if its body is right, as long as identifiers are
    new. -/
theorem Arises.stageAlone_of_right (arises : c.Arises) (drawn : c.IsDrawn src)
    (fresh : src.IsFresh (c.drawn + 7)) (known : ∃ f ∈ c.editors, f.id = editor)
    (right : c.bodyFaults body = []) :
    ∃ group e d, stageAlone editor body src c = (.ok (group, e), d) := by
  have new := drawn.isNew (fresh.mono (by omega))
  have created : ∃ d, createEditgroup editor (some "autoaccept") .empty src c =
      (.ok ⟨src.id c.drawn⟩, d) :=
    ⟨_, createEditgroup_eq_ok.2 ⟨known, find?_isNone_iff.1 new.editgroup, rfl, rfl⟩⟩
  obtain ⟨c', created⟩ := created
  have made := createEditgroup_does created
  have there := made.arises arises
  have drawn' := made.isDrawn drawn
  obtain ⟨-, -, -, rfl⟩ := createEditgroup_eq_ok.1 created
  have writable : HasWritable { c.toStore with editgroups := c.editgroups ++
      [newEditgroup editor (some "autoaccept") .empty ⟨src.id c.drawn⟩ (src.time c.ticks)] }
      ⟨src.id c.drawn⟩ :=
    ⟨_, List.mem_append_right _ (List.mem_singleton_self _), rfl, rfl, fun _ h => nomatch h⟩
  obtain ⟨e, d, staged⟩ := there.createEntity_of_right drawn' fresh writable right
  exact ⟨_, e, d, Write.bind_eq_ok.2 ⟨_, _, created, Write.bind_eq_ok.2
    ⟨_, _, staged, Write.pure_eq_ok.2 ⟨rfl, rfl⟩⟩⟩⟩

/-- What was drafted in an editgroup of its own is accepted: nothing can keep it from that. -/
theorem Arises.accept_drafts (arises : c.Arises) (there : d.Arises) {row : EditgroupRow}
    {drafts : List (Draft group)}
    (tables : d.toStore = { c.toStore with editgroups := c.editgroups ++ [row] }.withDrafts drafts)
    (own : row.id = group) (pending : row.status = .pending) (bare : row.extra = none)
    (newGroup : ∀ g ∈ c.editgroups, g.id ≠ group)
    (new : ∀ p ∈ drafts, ∀ y ∈ c.identities, y.id ≠ p.identity.id) :
    accept group src d =
        (.ok ⟨c.nextSeq, group, src.time (d.ticks + 1)⟩, d.accepting src group) ∧
      (d.accepting src group).toStore = c.withAccepted
        { row with status := .accepted, closedAt := some (src.time d.ticks) } drafts
        ⟨c.nextSeq, group, src.time (d.ticks + 1)⟩ := by
  have edits : d.editsOf group = drafts.map (·.edit) := by
    rw [tables]
    exact arises.editsOf_drafts newGroup drafts
  have takes := there.keyed.takesAll_drafts edits fun p hp => by
    rw [tables]
    exact List.mem_append_right _ (List.mem_map_of_mem hp)
  have writable : d.HasWritable group := by
    rw [tables]
    refine ⟨row, List.mem_append_right _ (List.mem_singleton_self _), own, pending, ?_⟩
    exact fun text htext => nomatch htext.symm.trans bare
  have next : d.nextSeq = c.nextSeq := by
    rw [nextSeq, nextSeq, tables]
    rfl
  refine ⟨?_, arises.accepted_drafts there.keyed tables own newGroup new edits _ _⟩
  rcases there.accept_cases src group with
    ⟨accepted, -, -⟩ | ⟨err, _, -, closed | ⟨-, done, f, rest, stops, -⟩⟩
  · rw [accepted, next]
  · exact absurd writable closed
  · exact absurd takes (stops.not_takesAll there.keyed)

/-- Drafts that were accepted in an editgroup of their own are published. -/
theorem Arises.isPublished {s t : Store} (arises : t.Arises) {row : EditgroupRow}
    {drafts : List (Draft group)} {entry : ChangelogEntry}
    (tables : t = s.withAccepted row drafts entry) (own : row.id = group)
    (accepted : row.status = .accepted) (bare : row.extra = none)
    (newGroup : ∀ g ∈ s.editgroups, g.id ≠ group)
    (new : ∀ p ∈ drafts, ∀ y ∈ s.identities, y.id ≠ p.identity.id)
    (edits : t.editsOf group = drafts.map (·.edit)) (draftedBy : body.DraftedBy drafts)
    (last : (drafts.map (·.edit)).getLast? = some e)
    (entered : entry.seq = s.changelog.length + 1 ∧ entry.editgroup = group) :
    s.IsPublished t row.editor body e.ident entry row drafts := by
  have hrow : row ∈ t.editgroups := by
    rw [tables]
    exact List.mem_append_right _ (List.mem_singleton_self _)
  have logged : t.changelog = s.changelog ++ [entry] := congrArg Store.changelog tables
  have made : ∀ p ∈ drafts, p.made ∈ t.identities ∧ p.revision ∈ t.revisions := by
    rw [tables]
    exact fun p hp => ⟨List.mem_append_right _ (List.mem_map_of_mem hp),
      List.mem_append_right _ (List.mem_map_of_mem hp)⟩
  constructor
  case draftedBy => exact draftedBy
  case last =>
    rw [List.getLast?_map, Option.map_eq_some_iff] at last ⊢
    obtain ⟨p, hp, rfl⟩ := last
    exact ⟨p, hp, p.edit_isOf.ident.symm⟩
  case new => exact new
  case newGroup => exact ⟨own, newGroup⟩
  case entered => exact entered
  case tables => exact tables
  case active =>
    intro p hp
    obtain ⟨hx, hr⟩ := made p hp
    exact ⟨_, hx, rfl, p.identity_kind, p.made_active, _, hr, rfl, p.revision_isOf⟩
  case shown =>
    intro p hp
    obtain ⟨hx, hr⟩ := made p hp
    exact arises.getEntity_made hx hr
  case editgroup =>
    subst own
    refine ⟨_, arises.keyed.getEditgroup_of_bare hrow bare, rfl, accepted, edits, ?_⟩
    refine arises.logged.changelogOf?_eq_some.2 ⟨?_, entered.2⟩
    rw [logged]
    exact List.mem_append_right _ (List.mem_singleton_self _)
  case latest => exact arises.logged.latestChangelog?_concat logged

/-- What was drafted in an editgroup of its own is accepted, and then it is published. -/
theorem Arises.accept_stageAlone (arises : c.Arises)
    (ok : stageAlone editor body src c = (.ok (group, e), d)) :
    ∃ entry, accept group src d = (.ok entry, d.accepting src group) ∧
      ∃ (row : EditgroupRow) (drafts : List (Draft group)),
        c.IsPublished (d.accepting src group).toStore editor body e.ident entry row drafts := by
  have there := arises.becomes (arises.stageAlone_leadsBy ok).2.becomes
  obtain ⟨-, -, newGroup, time, drafts, draftedBy, last, new, tables⟩ :=
    arises.stageAlone_creates ok
  obtain ⟨accepted, accepting⟩ := arises.accept_drafts there tables rfl rfl rfl newGroup new
  have after := (accept_doesOnly group).arises there accepted
  have edits : (d.accepting src group).editsOf group = drafts.map (·.edit) := by
    rw [accepting]
    exact arises.editsOf_drafts newGroup drafts
  have publishes := after.isPublished accepting rfl rfl rfl newGroup new edits draftedBy last
    ⟨arises.logged.nextSeq_eq, rfl⟩
  exact ⟨_, accepted, _, drafts, publishes⟩

/-- An entity is published, or it was not even drafted and nothing changes. -/
theorem Arises.autoaccept_published_cases (arises : c.Arises) (src : Source) (editor : EditorId)
    (body : EntityBody) :
    (∃ group e d entry, stageAlone editor body src c = (.ok (group, e), d) ∧
        autoaccept editor body src c = (.ok (e.ident, entry), d.accepting src group) ∧
        ∃ (row : EditgroupRow) (drafts : List (Draft group)),
          c.IsPublished (d.accepting src group).toStore editor body e.ident entry row drafts) ∨
      ∃ err d, (∀ a d, stageAlone editor body src c ≠ (.ok a, d)) ∧
        autoaccept editor body src c = (.error err, d) ∧ d.toStore = c.toStore := by
  rcases (stageAlone editor body).run_cases src c with
    ⟨⟨group, e⟩, d, staged, ok⟩ | ⟨err, d, failed, same⟩
  · obtain ⟨entry, accepted, publishes⟩ := arises.accept_stageAlone ok
    refine .inl ⟨group, e, d, entry, ok, ?_, publishes⟩
    simp only [autoaccept, staged, Write.run_eq_ok.2 accepted]
  · refine .inr ⟨err, d, fun a d' ok => ?_, by rw [autoaccept, failed], same⟩
    cases failed.symm.trans (Write.run_eq_ok.2 ok)

end Publication

end Store

namespace Catalog

/-- To create an entity and to accept it at once is all or nothing. It succeeds exactly when there
    is the editor and a revision could be created of the body; then the entity is active with that
    body, in an editgroup of its own that is the last one that was accepted, and all that there was
    is as it was. Otherwise nothing changes. What was drafted is never refused when it is to be
    accepted, so that nothing ever has to be given up. -/
theorem Reachable.autoaccept_is_all_or_nothing {src : Source} {c : Catalog} (h : Reachable src c)
    (fresh : src.IsFresh (c.drawn + 7)) (editor : EditorId) (body : EntityBody) :
    ((∃ answer, (Operation.autoaccept editor body).answer src c = .ok answer) ↔
        (∃ e ∈ c.editors, e.id = editor) ∧
          ∃ rev, (Operation.createRevision body).answer src c = .ok rev) ∧
      (∀ id entry, (Operation.autoaccept editor body).answer src c = .ok (id, entry) →
        ∃ (group : EditgroupId) (row : EditgroupRow) (drafts : List (Draft group)),
          c.IsPublished ((Operation.autoaccept editor body).after src c).toStore editor body id
            entry row drafts) ∧
      (∀ err, (Operation.autoaccept editor body).answer src c = .error err →
        ((Operation.autoaccept editor body).after src c).toStore = c.toStore) ∧
      ∀ group e d, (Store.stageAlone editor body).run src c = (.ok (group, e), d) →
        ∃ entry d', (Store.accept group).run src d = (.ok entry, d') := by
  have arises := h.arises
  have never : ∀ group e d, (Store.stageAlone editor body).run src c = (.ok (group, e), d) →
      ∃ entry d', (Store.accept group).run src d = (.ok entry, d') := by
    intro group e d staged
    obtain ⟨entry, accepted, -⟩ := arises.accept_stageAlone (Write.run_eq_ok.1 staged)
    exact ⟨entry, _, Write.run_eq_ok.2 accepted⟩
  rw [Store.answer_createRevision_iff (h.isDrawn.isNew (fresh.mono (by omega)))]
  rcases arises.autoaccept_published_cases src editor body with
    ⟨group, e, d, entry, staged, performed, publishes⟩ | ⟨err, d, failed, performed, same⟩
  · have answer : (Operation.autoaccept editor body).answer src c = .ok (e.ident, entry) :=
      congrArg Prod.fst performed
    have after : (Operation.autoaccept editor body).after src c = d.accepting src group :=
      congrArg Prod.snd performed
    obtain ⟨known, right, -⟩ := arises.stageAlone_creates staged
    refine ⟨iff_of_true ⟨_, answer⟩ ⟨known, right⟩, fun id entry' ok => ?_, fun err error => ?_,
      never⟩
    · obtain ⟨rfl, rfl⟩ := Prod.mk.inj (Except.ok.inj (answer.symm.trans ok))
      exact ⟨group, after ▸ publishes⟩
    · cases answer.symm.trans error
  · have answer : (Operation.autoaccept editor body).answer src c = .error err :=
      congrArg Prod.fst performed
    have after : (Operation.autoaccept editor body).after src c = d := congrArg Prod.snd performed
    refine ⟨iff_of_false ?_ ?_, fun id entry ok => ?_, fun _ _ => after ▸ same, never⟩
    · rintro ⟨a, ok⟩
      cases answer.symm.trans ok
    · rintro ⟨known, right⟩
      obtain ⟨group, e, d', ok⟩ := arises.stageAlone_of_right h.isDrawn fresh known right
      exact failed _ _ ok
    · cases answer.symm.trans ok

/-- A release that names no work. -/
def novel : EntityBody := .release { title := "a novel" }

/-- The release is published with a work of its own; of an editor who is not there nothing is. -/
theorem shelf_autoaccept_is_all_or_nothing :
    (∃ (id : EntityId) (entry : ChangelogEntry) (group : EditgroupId) (row : EditgroupRow)
        (w p : Draft group), shelf.IsPublished
          ((Operation.autoaccept (.nth 0) novel).after .counting shelf).toStore (.nth 0) novel id
          entry row [w, p]) ∧
      ((Operation.autoaccept (.nth 1) novel).after .counting shelf).toStore = shelf.toStore := by
  have reachable : Reachable .counting shelf := leads_play ..
  have fresh : Source.counting.IsFresh (shelf.drawn + 7) :=
    Source.counting_isFresh (by decide +kernel)
  obtain ⟨granted, publishes, -⟩ :=
    reachable.autoaccept_is_all_or_nothing fresh (.nth 0) novel
  obtain ⟨-, -, unchanged, -⟩ := reachable.autoaccept_is_all_or_nothing fresh (.nth 1) novel
  have right : (Operation.createRevision novel).answer .counting shelf = .ok (.nth 5) := by
    decide +kernel
  have unknown : (Operation.autoaccept (.nth 1) novel).answer .counting shelf =
      .error (.notFound (.editor (.nth 1))) := by decide +kernel
  obtain ⟨⟨id, entry⟩, ok⟩ := granted.2 ⟨by decide +kernel, _, right⟩
  obtain ⟨group, row, drafts, publishes⟩ := publishes id entry ok
  refine ⟨⟨id, entry, group, row, ?_⟩, unchanged _ unknown⟩
  cases publishes.draftedBy with
  | alone complete => cases complete
  | withWork => exact ⟨_, _, publishes⟩

end Catalog

end Biblio
