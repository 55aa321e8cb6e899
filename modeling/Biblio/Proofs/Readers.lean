import Biblio.Proofs.Permanence
import Biblio.Proofs.Redirects
import Biblio.Proofs.Replay
import Biblio.Proofs.Shapes

/-! Readers see what was accepted, and nothing else.

    All that they are shown comes from the identities that are live, the revisions that these point
    at and the changelog. Between two acceptances the live identities and the changelog stay as they
    are; identities and revisions that are added in the meantime lie in the same tables, but no
    question of a reader comes upon them. -/

namespace Biblio

/-- A question of a reader. The history asked for is that of an identity that is there. -/
def Query.IsForReaders {α : Type} (q : Query α) (s : Store) : Prop :=
  match q with
  | .changelog _ _ | .changelogEntry _ | .latestChangelog | .changelogOf _ | .entity _ _
  | .lookup _ | .anyEntity _ _ | .expandedRelease _ _ _ | .releasesForWork _ | .filesForRelease _
  | .countEntities _ => True
  | .history id => ∃ x ∈ s.identities, x.id = id
  | .editor _ | .editorNamed _ | .editgroupsOfEditor _ | .editgroup _ | .revision _ | .editsOf _
  | .resolution _ => False

namespace Store

/-- The identities that something was accepted of. -/
def live (s : Store) : List Identity := s.identities.filter (·.isLive)

/-! ### Reading from what is live -/

section Live
variable {s : Store}

theorem mem_live {x : Identity} : x ∈ s.live ↔ x ∈ s.identities ∧ x.isLive = true :=
  List.mem_filter

theorem Keyed.live (keyed : s.Keyed) : (s.live.map (·.id)).Nodup :=
  keyed.identities.sublist (List.filter_sublist.map _)

/-- Readers are told of an identity that is not live what they are told of one that is not there. -/
theorem viewOf_of_wip {x : Identity} (wip : x.isLive = false) :
    s.viewOf x = .error (.notFound (.identity x.id)) := by
  rw [viewOf, shown, Identity.state_eq_wip.2 wip]
  rfl

/-- An identity that is there is what its entity is shown by. -/
theorem Keyed.getEntity_of_mem (keyed : s.Keyed) {x : Identity}
    (hx : x ∈ s.identities) : s.getEntity x.id = s.viewOf x := by
  rw [getEntity, keyed.getIdentity_eq_ok.2 ⟨hx, rfl⟩, Except.ok_bind]

/-- An entity may as well be looked for among the live identities only. -/
theorem Keyed.getEntity_eq (keyed : s.Keyed) (id : EntityId) :
    s.getEntity id = (found (.identity id) (s.live.find? (·.id == id))).bind (s.viewOf ·) := by
  cases hx : s.live.find? (·.id == id) with
  | some x =>
    obtain ⟨mem, rfl⟩ := (find?_eq_some_iff keyed.live).1 hx
    rw [keyed.getEntity_of_mem (mem_live.1 mem).1]
    rfl
  | none =>
    cases hy : s.identity? id with
    | none =>
      rw [getEntity, getIdentity, hy]
      rfl
    | some y =>
      obtain ⟨mem, rfl⟩ := keyed.identity?_eq_some.1 hy
      have wip : y.isLive = false := by
        by_contra live
        rw [List.find?_eq_none] at hx
        exact hx y (mem_live.2 ⟨mem, by simpa using live⟩) (beq_self_eq_true _)
      rw [keyed.getEntity_of_mem mem, viewOf_of_wip wip]
      rfl

theorem Arises.shownThroughRedirect_eq (arises : s.Arises) {x y : Identity} {b : EntityId}
    (hx : x ∈ s.identities) (hb : x.redirect = some b) (hy : s.identity? b = some y) :
    s.shownThroughRedirect x.id = if y.isDeleted then .ok none else s.shownRevision y.revision := by
  have found := arises.keyed.identity?_eq_some.2 ⟨hx, rfl⟩
  rw [shownThroughRedirect, arises.resolve_of_redirect found hb hy]
  cases y.isDeleted <;> rfl

theorem current_eq (s : Store) : s.current = s.live.filterMap fun x =>
    if !x.isDeleted then (x.revision.bind s.revisionRow?).map fun r => (x, r) else none := by
  rw [live, List.filterMap_filter, current]
  refine List.filterMap_congr fun x _ => ?_
  cases x.isLive <;> rfl

theorem fst_mem_live {p : Identity × RevisionRow} (h : p ∈ s.current) : p.1 ∈ s.live := by
  rw [current_eq, List.mem_filterMap] at h
  obtain ⟨x, hx, h⟩ := h
  split at h
  · obtain ⟨r, -, rfl⟩ := Option.map_eq_some_iff.1 h
    exact hx
  · cases h

theorem mem_live_of_mem_referrers {kind : RelationKind} {target : EntityId} {x : Identity}
    (h : x ∈ s.referrers kind target) : x ∈ s.live := by
  obtain ⟨p, hp, rfl⟩ := List.mem_map.1 ((List.mergeSort_perm _ _).mem_iff.1 h)
  exact fst_mem_live (List.mem_of_mem_filter hp)

theorem mem_live_of_findByExternalId? {x : ExternalId} {y : Identity}
    (h : s.findByExternalId? x = some y) : y ∈ s.live := by
  have there := (List.mergeSort_perm _ _).mem_iff.1 (List.mem_of_head? h)
  obtain ⟨p, hp, rfl⟩ := List.mem_map.1 there
  exact fst_mem_live (List.mem_of_mem_filter hp)

theorem activeOfKind_eq (s : Store) (kind : EntityKind) : s.activeOfKind kind =
    s.live.filter fun x => x.kind == kind && !x.isDeleted && x.revision.isSome := by
  rw [live, List.filter_filter, activeOfKind]
  refine List.filter_congr fun x _ => ?_
  cases x.isLive <;> simp

theorem countEntities_eq (s : Store) (kind : EntityKind) :
    s.countEntities kind = s.live.countP (·.kind == kind) := by
  rw [live, List.countP_filter, countEntities, countIdentities]
  rfl

end Live

/-! ### Between acceptances -/

/-- Nothing was accepted between these tables and those. -/
structure AsBefore (s t : Store) : Prop extends Retains s t where
  earlier : s.Arises
  later : t.Arises
  sameChangelog : t.changelog = s.changelog
  sameLive : t.live = s.live

section Changes
variable {s t : Store}

/-- Without an acceptance only identities are added that are not live. -/
theorem Change.live_eq {k : Deed} (arises : s.Arises) (step : Change s k t)
    (changelog : t.changelog = s.changelog) : t.live = s.live := by
  rcases step.log_cases arises with
    ⟨-, -, same | ⟨x, e, may, appended⟩⟩ | ⟨group, closedAt, acceptedAt, -, -, rfl⟩
  · rw [live, live, same]
  · rw [live, live, appended, List.filter_append]
    simp [may.unaccepted.1]
  · have appended : s.changelog ++ [⟨s.nextSeq, group, acceptedAt⟩] = s.changelog := changelog
    simp at appended

theorem Becomes.live_eq (h : s.Becomes t) (arises : s.Arises)
    (changelog : t.changelog = s.changelog) : t.live = s.live := by
  induction h with
  | refl => rfl
  | @tail u t before step ih =>
    obtain ⟨k, step⟩ := step
    -- the changelog only grows, so that it is the same all the way
    have there := arises.becomes before
    have grown := (Becomes.retains before arises).changelog
    have grown' := (step.retains there).changelog
    rw [changelog] at grown'
    have unchanged : u.changelog = s.changelog :=
      grown'.eq_of_length (Nat.le_antisymm grown'.length_le grown.length_le)
    rw [step.live_eq there (changelog.trans unchanged.symm), ih unchanged]

theorem Becomes.asBefore (h : s.Becomes t) (arises : s.Arises)
    (changelog : t.changelog = s.changelog) : s.AsBefore t :=
  { h.retains arises with
    earlier := arises
    later := arises.becomes h
    sameChangelog := changelog
    sameLive := h.live_eq arises changelog }

end Changes

theorem mapM_congr {α β ε : Type} {f g : α → Except ε β} {xs : List α}
    (h : ∀ x ∈ xs, f x = g x) : xs.mapM f = xs.mapM g := by
  induction xs with
  | nil => rfl
  | cons x xs ih =>
    rw [List.mapM_cons, List.mapM_cons, h x List.mem_cons_self,
      ih fun y hy => h y (List.mem_cons_of_mem _ hy)]

namespace AsBefore

variable {s t : Store} (same : s.AsBefore t)
include same

theorem mem_identities {x : Identity} (hx : x ∈ s.live) : x ∈ t.identities := by
  rw [← same.sameLive] at hx
  exact (mem_live.1 hx).1

/-- What is live points at a revision that was there before. -/
theorem revisionRow?_eq {x : Identity} (hx : x ∈ s.live) {rev : RevisionId}
    (points : x.revision = some rev) : t.revisionRow? rev = s.revisionRow? rev := by
  have grounded := same.earlier.grounded.identities x (mem_live.1 hx).1
  obtain ⟨r, hr⟩ := Option.isSome_iff_exists.1 (grounded.revision rev points).isSome
  rw [hr, same.revisionRow?_eq_some hr]

theorem shownRevision_eq {x : Identity} (hx : x ∈ s.live) :
    t.shownRevision x.revision = s.shownRevision x.revision := by
  cases points : x.revision with
  | none => rfl
  | some rev =>
    rw [shownRevision, shownRevision, getRevision, getRevision, same.revisionRow?_eq hx points]

/-- What is live redirects to what is live. -/
theorem shownThroughRedirect_eq {x : Identity} (hx : x ∈ s.live) {b : EntityId}
    (hb : x.redirect = some b) : t.shownThroughRedirect x.id = s.shownThroughRedirect x.id := by
  have known := (mem_live.1 hx).1
  obtain ⟨y, hy, -, live, -⟩ := same.earlier.lands known hb
  obtain ⟨target, rfl⟩ := same.earlier.keyed.identity?_eq_some.1 hy
  have hyLive : y ∈ s.live := mem_live.2 ⟨target, live⟩
  have hy' : t.identity? y.id = some y :=
    same.later.keyed.identity?_eq_some.2 ⟨same.mem_identities hyLive, rfl⟩
  rw [same.later.shownThroughRedirect_eq (same.mem_identities hx) hb hy',
    same.earlier.shownThroughRedirect_eq known hb hy, same.shownRevision_eq hyLive]

theorem viewOf_eq {x : Identity} (hx : x ∈ s.live) : t.viewOf x = s.viewOf x := by
  have shown : t.shown x = s.shown x := by
    unfold shown
    cases state : x.state with
    | wip => rfl
    | deleted => rfl
    | active => exact same.shownRevision_eq hx
    | redirect =>
      have shaped := same.earlier.isShaped x (mem_live.1 hx).1
      obtain ⟨-, -, -, redirects⟩ := shaped.hasShape_iff.2 state
      obtain ⟨b, hb⟩ := Option.isSome_iff_exists.1 redirects
      exact same.shownThroughRedirect_eq hx hb
  rw [viewOf, viewOf, shown]

theorem getEntity_eq (id : EntityId) : t.getEntity id = s.getEntity id := by
  rw [same.later.keyed.getEntity_eq, same.earlier.keyed.getEntity_eq, same.sameLive]
  cases hx : s.live.find? (·.id == id) with
  | none => rfl
  | some x => exact same.viewOf_eq (List.mem_of_find?_eq_some hx)

theorem current_eq : t.current = s.current := by
  rw [Store.current_eq, Store.current_eq, same.sameLive]
  refine List.filterMap_congr fun x hx => ?_
  cases points : x.revision with
  | none => rfl
  | some rev => rw [Option.bind_some, Option.bind_some, same.revisionRow?_eq hx points]

theorem referrersOfKind_eq (relation : RelationKind) (target : EntityId) (kind : EntityKind) :
    t.referrersOfKind relation target kind = s.referrersOfKind relation target kind := by
  have referrers : t.referrers relation target = s.referrers relation target := by
    rw [referrers, referrers, same.current_eq]
  rw [referrersOfKind, referrersOfKind, referrers]
  refine mapM_congr fun x hx => ?_
  exact same.viewOf_eq (mem_live_of_mem_referrers (List.mem_of_mem_filter hx))

theorem lookup_eq (x : ExternalId) : t.lookup x = s.lookup x := by
  have finds : t.findByExternalId? x = s.findByExternalId? x := by
    rw [findByExternalId?, findByExternalId?, same.current_eq]
  rw [lookup, lookup, finds]
  cases hy : s.findByExternalId? x with
  | none => rfl
  | some y =>
    simp only [found, Except.ok_bind, same.viewOf_eq (mem_live_of_findByExternalId? hy)]

theorem randomEntity_eq (kind : EntityKind) (choice : Nat) :
    t.randomEntity kind choice = s.randomEntity kind choice := by
  have active : t.activeOfKind kind = s.activeOfKind kind := by
    rw [activeOfKind_eq, activeOfKind_eq, same.sameLive]
  simp only [randomEntity, active]
  cases hx : (s.activeOfKind kind)[choice % (s.activeOfKind kind).length]? with
  | none => rfl
  | some x =>
    have mem := List.mem_of_getElem? hx
    rw [activeOfKind_eq] at mem
    exact same.viewOf_eq (List.mem_of_mem_filter mem)

theorem expandedRelease_eq (id : EntityId) (flags : ExpandFlags) (hidden : HideFlags) :
    t.expandedRelease id flags hidden = s.expandedRelease id flags hidden := by
  have visible : ∀ id, t.visible id = s.visible id := by
    intro id
    cases id with
    | none => rfl
    | some id => rw [visible, visible, same.getEntity_eq]
  have files : ∀ id, t.filesForRelease id = s.filesForRelease id := fun id =>
    same.referrersOfKind_eq .copy id .file
  have expand : ∀ view r shown, t.expand view r flags shown = s.expand view r flags shown := by
    intro view r shown
    simp only [Store.expand, visibleAll, visible, files]
  simp only [expandedRelease, same.getEntity_eq, expand]

/-- The editgroup of an entry was closed before, so that it is as it was. -/
theorem editgroup_eq {x : ChangelogEntry} (hx : x ∈ s.changelog) :
    t.getEditgroupHeader x.editgroup = s.getEditgroupHeader x.editgroup ∧
      t.editsOf x.editgroup = s.editsOf x.editgroup := by
  obtain ⟨g, hg, hid, accepted, -⟩ := same.earlier.logged.known x hx
  have ended : g.status ≠ .pending := by simp [accepted]
  rw [← hid]
  exact ⟨same.getEditgroupHeader_eq same.earlier.keyed same.later.keyed hg ended,
    (same.closed g hg ended).2⟩

theorem history_eq {x : Identity} (hx : x ∈ s.identities) : t.history x.id = s.history x.id := by
  obtain ⟨y, hy, may⟩ := same.identities x hx
  have edits : t.acceptedEdits x.id = s.acceptedEdits x.id := by
    rw [same.later.acceptedEdits_eq, same.earlier.acceptedEdits_eq,
      log_congr same.sameChangelog fun entry hentry => (same.editgroup_eq hentry).2]
  rw [history, history, same.earlier.keyed.getIdentity_eq_ok.2 ⟨hx, rfl⟩,
    same.later.keyed.getIdentity_eq_ok.2 ⟨hy, may.id⟩, Except.ok_bind, Except.ok_bind, edits]
  refine mapM_congr fun p hp => ?_
  rw [same.earlier.acceptedEdits_eq, List.mem_reverse] at hp
  obtain ⟨hentry, -, hgroup, -⟩ := same.earlier.logged.mem_log.1 hp
  change t.historyEntry p.1 = s.historyEntry p.1
  rw [historyEntry, historyEntry, hgroup, (same.editgroup_eq hentry).1, changelogOf?,
    changelogOf?, same.sameChangelog]

/-- Between acceptances readers get the same answers. -/
theorem answer_eq {α : Type} (q : Query α) (readable : q.IsForReaders s) (handle : Handle) :
    q.answer handle t = q.answer handle s := by
  have changelog := same.sameChangelog
  cases q with
  | changelog start limit =>
    simp only [Query.answer, Handle.readChangelog, readChangelog, sortedChangelog, changelog]
  | changelogEntry seq =>
    simp only [Query.answer, getChangelogEntry, changelogEntry?, changelog]
  | latestChangelog => simp only [Query.answer, latestChangelog?, sortedChangelog, changelog]
  | changelogOf group => simp only [Query.answer, changelogOf?, changelog]
  | entity id hidden => simp only [Query.answer, getEntityWith, same.getEntity_eq]
  | lookup x => exact same.lookup_eq x
  | anyEntity kind choice => exact same.randomEntity_eq kind choice
  | history id =>
    obtain ⟨x, hx, rfl⟩ := readable
    exact same.history_eq hx
  | expandedRelease id flags hidden => exact same.expandedRelease_eq id flags hidden
  | releasesForWork work => exact same.referrersOfKind_eq .work work .release
  | filesForRelease release => exact same.referrersOfKind_eq .copy release .file
  | countEntities kind => rw [Query.answer, Query.answer, countEntities_eq, countEntities_eq,
      same.sameLive]
  | _ => exact readable.elim

end AsBefore

end Store

namespace Catalog

/-- Readers see only what was accepted. An operation that accepts nothing, or fails to, changes no
    answer to a question of a reader: not what entities there are and what they look like, by
    themselves or linked to each other, nor how they came to be so, nor the changelog. -/
theorem Reachable.readers_see_the_same {src : Source} {c : Catalog} (h : Reachable src c)
    {α : Type} (op : Operation α) (accepts : op.entry? src c = none) (handle : Handle) :
    (∀ {β : Type} (q : Query β), q.IsForReaders c.toStore →
        q.answer handle (op.after src c).toStore = q.answer handle c.toStore) ∧
      ∀ cursor, handle.advance (op.after src c).toStore cursor =
        handle.advance c.toStore cursor := by
  have arises := h.arises
  have changelog : (op.after src c).changelog = c.changelog := by
    rw [arises.after_changelog src op, accepts]
    exact List.append_nil _
  have same := (arises.after_leadsBy src op).becomes.asBefore arises changelog
  refine ⟨fun q readable => same.answer_eq q readable handle, fun cursor => ?_⟩
  have pages : ∀ start limit, handle.readChangelog start limit (op.after src c).toStore =
      handle.readChangelog start limit c.toStore := fun start limit =>
    Except.ok.inj (same.answer_eq (.changelog start limit) trivial handle)
  simp only [Handle.advance, pages]

/-- A work, and an open editgroup in which another one is created. -/
def drafting : Catalog := Catalog.empty.play .counting [
  ⟨.createEditor "someone"⟩, ⟨.autoaccept (.nth 0) (.work {})⟩,
  ⟨.createEditgroup (.nth 0) none .empty⟩, ⟨.createEntity (.nth 5) (.work {})⟩]

/-- The work is updated in that editgroup, too. -/
def drafted : Catalog :=
  (Operation.updateEntity (.nth 5) (.nth 3) (.work {})).after .counting drafting

theorem drafted_readers_see_the_same :
    drafted.revisions.length = drafting.revisions.length + 1 ∧
      (Query.countEntities .work).answer ⟨{}, .nth 0⟩ drafted.toStore = .ok 1 ∧
      (∀ id, (Query.entity id {}).answer ⟨{}, .nth 0⟩ drafted.toStore =
        (Query.entity id {}).answer ⟨{}, .nth 0⟩ drafting.toStore) ∧
      (Query.history (.nth 3)).answer ⟨{}, .nth 0⟩ drafted.toStore =
        (Query.history (.nth 3)).answer ⟨{}, .nth 0⟩ drafting.toStore := by
  obtain ⟨same, -⟩ := Reachable.readers_see_the_same
    (show Reachable .counting drafting from leads_play ..)
    (.updateEntity (.nth 5) (.nth 3) (.work {})) rfl ⟨{}, .nth 0⟩
  have known : ∃ x ∈ drafting.identities, x.id = .nth 3 := by decide +kernel
  have count : (Query.countEntities .work).answer ⟨{}, .nth 0⟩ drafting.toStore = .ok 1 := by
    decide +kernel
  exact ⟨by decide +kernel, (same (.countEntities .work) trivial).trans count,
    fun id => same (.entity id {}) trivial, same (.history (.nth 3)) known⟩

end Catalog

end Biblio
