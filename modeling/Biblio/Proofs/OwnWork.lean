import Biblio.Proofs.Publication

/-! Releases with a work of their own.

    A release that names no work is drafted behind a work that it names. When the editgroup is
    accepted next, both become active, whatever else was staged there: the edits before them neither
    name their revisions nor lead to them. So the release is the only one of its work. It is listed
    as such unless its body nests too deeply, which is the only thing that can go wrong. -/

namespace Biblio.Store

section Acceptance
variable {s t : Store} {group : EditgroupId} {drafts : List (Draft group)} {p w : Draft group}
  {body : EntityBody} {e : Edit} {x : Identity} {r : RevisionRow}

/-- Revisions are told apart, those of drafts among them. -/
theorem Creates.nodup_revisions (h : s.Creates t body drafts e) (keyed : t.Keyed) :
    (s.revisions.map (·.id) ++ drafts.map (·.revision.id)).Nodup := by
  have ids := keyed.revisions
  rw [h.tables, withDrafts, List.map_append, List.map_map] at ids
  exact ids

theorem Creates.identity_mem (h : s.Creates t body drafts e) (hp : p ∈ drafts) :
    p.identity ∈ t.identities := by
  rw [h.tables]
  exact List.mem_append_right _ (List.mem_map_of_mem hp)

theorem Creates.edit_mem (h : s.Creates t body drafts e) (hp : p ∈ drafts) :
    p.edit ∈ inApplicationOrder (t.editsOf group) := by
  rw [mem_inApplicationOrder, h.tables, editsOf_withDrafts]
  exact List.mem_append_right _ (List.mem_map_of_mem hp)

/-- The identity of a draft is active behind the acceptance of its editgroup. -/
theorem Creates.made_mem (h : s.Creates t body drafts e) (keyed : t.Keyed) (hp : p ∈ drafts)
    (closedAt acceptedAt : Instant) :
    p.made ∈ (t.accepted group closedAt acceptedAt).identities := by
  rw [← p.under_edits (keyed.inApplicationOrder_nodup group) (h.edit_mem hp)]
  exact List.mem_map_of_mem (h.identity_mem hp)

theorem Creates.revision_mem (h : s.Creates t body drafts e) (hp : p ∈ drafts)
    (closedAt acceptedAt : Instant) :
    p.revision ∈ (t.accepted group closedAt acceptedAt).revisions := by
  change p.revision ∈ t.revisions
  rw [h.tables]
  exact List.mem_append_right _ (List.mem_map_of_mem hp)

/-- No other identity gets the revision of a draft. -/
theorem Creates.eq_made (h : s.Creates t body drafts e) (arises : s.Arises) (keyed : t.Keyed)
    (hp : p ∈ drafts) {closedAt acceptedAt : Instant}
    (hx : x ∈ (t.accepted group closedAt acceptedAt).identities)
    (hrev : x.revision = some p.revision.id) : x = p.made := by
  -- what was there before knows only of revisions that were there before
  have distinct := List.nodup_append.1 (h.nodup_revisions keyed)
  have unknown : ∀ kind, ¬s.HasRevision p.revision.id kind := by
    rintro kind ⟨r, hr, hid, -⟩
    exact distinct.2.2 _ (List.mem_map_of_mem hr) _ (List.mem_map_of_mem hp) hid
  obtain ⟨y, hy, rfl⟩ := List.mem_map.1 hx
  rcases Identity.under_cases (inApplicationOrder (t.editsOf group)) y with
    ⟨same, -⟩ | ⟨f, hf, hid, after⟩
  · rw [same] at hrev
    rw [h.tables] at hy
    rcases List.mem_append.1 hy with old | new
    · exact absurd ((arises.grounded.identities y old).revision _ hrev) (unknown _)
    · obtain ⟨q, -, rfl⟩ := List.mem_map.1 new
      obtain ⟨-, -, none, -⟩ := q.identity_wip
      cases none.symm.trans hrev
  · have update : f.action = .update p.revision.id := by
      rw [after, Identity.after_revision] at hrev
      exact EditAction.revision?_eq_some.1 hrev
    have own : f = p.edit := by
      have staged : f ∈ (s.withDrafts drafts).edits :=
        h.tables ▸ (mem_editsOf.1 (mem_inApplicationOrder.1 hf)).1
      rcases List.mem_append.1 staged with old | new
      · have brings : f.result.1 = some p.revision.id := by rw [Edit.result, update]; rfl
        exact absurd ((arises.grounded.edits f old).result.revision _ brings) (unknown _)
      · obtain ⟨q, hq, rfl⟩ := List.mem_map.1 new
        have same : q.revision.id = p.revision.id :=
          EditAction.update.inj (q.edit_action.symm.trans update)
        rw [List.inj_on_of_nodup_map distinct.2.1 hq hp same]
    subst own
    obtain rfl := keyed.identity_unique hy (h.identity_mem hp) (hid.trans p.fits.ident.symm)
    exact p.under_edits (keyed.inApplicationOrder_nodup group) hf

/-- Nothing that was there before leads to what is new. -/
theorem Creates.not_leadsTo (h : s.Creates t body drafts e) (arises : s.Arises) (hp : p ∈ drafts)
    (hr : r ∈ s.revisions) (kind : RelationKind) :
    r.relations.any (Relation.leadsTo kind p.identity.id) = false := by
  obtain ⟨b, hb, leads⟩ := arises.links r hr
  rw [List.any_eq_false]
  intro l hl here
  rw [show r.relations = b.relations from congrArg RevisionRow.relations hb.2] at hl
  obtain ⟨x, hx, hid, -⟩ := leads l hl
  have target : l.target = p.identity.id := eq_of_beq (Bool.and_eq_true_iff.1 here).2
  exact h.new p hp x hx (hid.trans target)

/-- The release that was drafted behind a work is the only one that leads to it. -/
theorem Creates.mem_referrers (h : s.Creates t body [w, p] e) (arises : s.Arises) (keyed : t.Keyed)
    {closedAt acceptedAt : Instant} (after : (t.accepted group closedAt acceptedAt).Arises) :
    x ∈ (t.accepted group closedAt acceptedAt).referrers .work w.identity.id ↔ x = p.made := by
  have hw : w ∈ [w, p] := List.mem_cons_self
  have hp : p ∈ [w, p] := List.mem_cons_of_mem _ List.mem_cons_self
  obtain ⟨lacks, work, entity⟩ : body.lacksWork = true ∧ w.body = .work {} ∧
      p.body = body.inWork w.identity.id := by
    cases h.draftedBy with
    | withWork lacks work entity => exact ⟨lacks, work, entity⟩
  have bare : w.revision.relations = [] := by
    rw [w.revision_isOf.2, work]
    rfl
  have linked : p.revision.relations = ⟨.work, w.identity.id, 0⟩ :: body.relations := by
    rw [p.revision_isOf.2, entity]
    exact EntityBody.relations_inWork lacks
  rw [Store.mem_referrers]
  constructor
  · rintro ⟨r, hxr, leads⟩
    obtain ⟨hx, -, hr, hrev⟩ := after.mem_current.1 hxr
    have hr : r ∈ (s.withDrafts [w, p]).revisions := h.tables ▸ hr
    rcases List.mem_append.1 hr with old | new
    · cases (h.not_leadsTo arises hw old .work).symm.trans leads
    · rcases List.mem_pair.1 new with rfl | rfl
      · rw [bare] at leads
        cases leads
      · exact h.eq_made arises keyed hp hx hrev
  · rintro rfl
    refine ⟨p.revision, after.mem_current.2 ⟨h.made_mem keyed hp _ _, ?_, ?_, rfl⟩, ?_⟩
    · exact p.made_active.state_eq
    · exact h.revision_mem hp _ _
    · simp [linked, Relation.leadsTo]

/-- The release that was drafted behind a work is listed as the only one of it, unless its body
    nests too deeply. -/
theorem Creates.releasesForWork_eq (h : s.Creates t body [w, p] e) (arises : s.Arises)
    (keyed : t.Keyed) {closedAt acceptedAt : Instant}
    (after : (t.accepted group closedAt acceptedAt).Arises) :
    (t.accepted group closedAt acceptedAt).releasesForWork w.identity.id =
      if p.body.nesting ≤ Json.maxDepth then .ok [.active p.made p.body.reread]
      else .error (.storage .undecodable) := by
  have hp : p ∈ [w, p] := List.mem_cons_of_mem _ List.mem_cons_self
  have release : p.made.kind = .release := by
    cases h.draftedBy with
    | withWork lacks work entity =>
      rw [Draft.made, p.identity_kind, entity, EntityBody.kind_inWork]
      cases body with
      | release r => rfl
      | _ => cases lacks
  have once := (after.keyed.nodup_referrers .work w.identity.id).of_map
  have only : (t.accepted group closedAt acceptedAt).referrers .work w.identity.id = [p.made] := by
    refine List.perm_singleton.1 ((List.perm_ext_iff_of_nodup once (List.nodup_singleton _)).2 ?_)
    intro x
    rw [h.mem_referrers arises keyed after, List.mem_singleton]
  have view := after.viewOf_of_hasBody ⟨h.made_mem keyed hp _ _, p.made_active.state_eq, p.revision,
    h.revision_mem hp _ _, rfl, p.revision_isOf⟩
  rw [releasesForWork, referrersOfKind, only, List.filter_singleton, release, beq_self_eq_true,
    cond_true, List.mapM_cons, view]
  split_ifs <;> rfl

end Acceptance

section Operations
variable {src : Source} {c d : Catalog} {group : EditgroupId} {body : EntityBody} {e : Edit}
  {drafts : List (Draft group)} {entry : ChangelogEntry}

theorem Arises.creates_of_answer (arises : c.Arises)
    (ok : (Operation.createEntity group body).answer src c = .ok e) :
    c.HasWritable group ∧ c.bodyFaults body = [] ∧ ∃ drafts : List (Draft group),
      c.Creates ((Operation.createEntity group body).after src c).toStore body drafts e :=
  arises.createEntity_creates (Write.run_eq_ok.1 (Prod.ext ok rfl))

/-- What drafts become when their editgroup is accepted. -/
structure Published (t : Store) (drafts : List (Draft group)) : Prop where
  live : ∀ p ∈ drafts, p.made ∈ t.identities ∧ p.made.HasShape .active ∧ p.revision ∈ t.revisions
  listed : ∀ w p, drafts = [w, p] → t.releasesForWork w.identity.id =
    if p.body.nesting ≤ Json.maxDepth then .ok [.active p.made p.body.reread]
    else .error (.storage .undecodable)

theorem Creates.published (h : c.Creates d.toStore body drafts e) (arises : c.Arises)
    (there : d.Arises) (accepted : (Operation.accept group).answer src d = .ok entry) :
    Published ((Operation.accept group).after src d).toStore drafts := by
  have live := there.after src (.accept group)
  rcases there.answer_accept src group with ⟨-, closing, -⟩ | ⟨err, error, -⟩
  · rw [closing] at live ⊢
    refine ⟨fun p hp => ⟨h.made_mem there.keyed hp _ _, p.made_active, h.revision_mem hp _ _⟩, ?_⟩
    rintro w p rfl
    exact h.releasesForWork_eq arises there.keyed live
  · cases error.symm.trans accepted

end Operations

end Biblio.Store

namespace Biblio.Catalog

open Store

/-- An entity is created exactly in an editgroup that can be worked on and with a body that a
    revision could be created of; otherwise nothing changes. One draft of it is appended, which has
    that body; but of a release without a work there are two, first that of a new work and then that
    of the release in it. When the editgroup is accepted next, they become active, and the release
    is listed as the only one of its work, unless its body nests too deeply. -/
theorem Reachable.entity_is_created_with_own_work {src : Source} {c : Catalog}
    (h : Reachable src c) (fresh : src.IsFresh (c.drawn + 6)) (group : EditgroupId)
    (body : EntityBody) :
    ((∃ e, (Operation.createEntity group body).answer src c = .ok e) ↔
        c.HasWritable group ∧ ∃ rev, (Operation.createRevision body).answer src c = .ok rev) ∧
      (∀ err, (Operation.createEntity group body).answer src c = .error err →
        ((Operation.createEntity group body).after src c).toStore = c.toStore) ∧
      ∀ e d, (Operation.createEntity group body).answer src c = .ok e →
        (Operation.createEntity group body).after src c = d →
        ∃ drafts : List (Draft group), c.Creates d.toStore body drafts e ∧
          d.editsOf group = c.editsOf group ++ drafts.map (·.edit) ∧
          ∀ entry, (Operation.accept group).answer src d = .ok entry →
            Published ((Operation.accept group).after src d).toStore drafts := by
  have arises := h.arises
  refine ⟨?_, fun err error => Write.run_error error, fun e d ok after => ?_⟩
  · rw [answer_createRevision_iff (h.isDrawn.isNew (fresh.mono (by omega)))]
    constructor
    · rintro ⟨e, ok⟩
      obtain ⟨writable, right, -⟩ := arises.creates_of_answer ok
      exact ⟨writable, right⟩
    · rintro ⟨writable, right⟩
      obtain ⟨e, d, ok⟩ := arises.createEntity_of_right h.isDrawn fresh writable right
      exact ⟨e, congrArg Prod.fst (Write.run_eq_ok.2 ok)⟩
  · subst after
    have there := arises.after src (.createEntity group body)
    obtain ⟨-, -, drafts, creates⟩ := arises.creates_of_answer ok
    refine ⟨drafts, creates, ?_, fun entry accepted => creates.published arises there accepted⟩
    rw [creates.tables, editsOf_withDrafts]

/-- An editor with an open editgroup, and a work. -/
def openShelf : Catalog := shelf.play .counting [⟨.createEditgroup (.nth 0) none .empty⟩]

/-- The example when an entity with this body was created in the editgroup. -/
def opened (body : EntityBody) : Catalog :=
  (Operation.createEntity (.nth 5) body).after .counting openShelf

/-- The example when the editgroup was accepted then. -/
def stocked (body : EntityBody) : Catalog :=
  (Operation.accept (.nth 5)).after .counting (opened body)

/-- A release without a work, with metadata that nests deep. -/
def deepNovel (depth : Nat) : EntityBody :=
  .release { title := "a deep novel", extra := .ofMembers [("deep", .nested depth)] }

section Example

theorem openShelf_accepts (body : EntityBody) (h : body ∈ [novel, deepNovel 125]) :
    (∃ e, (Operation.createEntity (.nth 5) body).answer .counting openShelf = .ok e) ∧
      ∃ entry, (Operation.accept (.nth 5)).answer .counting (opened body) = .ok entry := by
  have answers : ((Operation.createEntity (.nth 5) body).answer .counting openShelf).isOk = true ∧
      ((Operation.accept (.nth 5)).answer .counting (opened body)).isOk = true := by
    revert body
    decide +kernel
  constructor
  · cases created : (Operation.createEntity (.nth 5) body).answer .counting openShelf with
    | ok e => exact ⟨e, rfl⟩
    | error err => cases created ▸ answers.1
  · cases accepted : (Operation.accept (.nth 5)).answer .counting (opened body) with
    | ok entry => exact ⟨entry, rfl⟩
    | error err => cases accepted ▸ answers.2

variable {body : EntityBody}

theorem opened_ids (h : body ∈ [novel, deepNovel 125]) : body.lacksWork = true ∧
    (opened body).identities.map (·.id) =
      openShelf.identities.map (·.id) ++ [.nth 7, .nth 10] := by
  revert body
  decide +kernel

/-- The release names the work that was drafted in front of it. -/
theorem opened_drafts (h : body ∈ [novel, deepNovel 125]) {drafts : List (Draft (.nth 5))}
    {e : Edit} (creates : openShelf.Creates (opened body).toStore body drafts e) :
    ∃ w p, drafts = [w, p] ∧ w.identity.id = .nth 7 ∧ p.body = body.inWork (.nth 7) := by
  obtain ⟨lacks, ids⟩ := opened_ids h
  cases creates.draftedBy with
  | alone complete => cases lacks.symm.trans complete
  | @withWork w p _ work entity =>
    rw [creates.tables, withDrafts, List.map_append] at ids
    have own := List.append_cancel_left ids
    obtain ⟨first, -⟩ := List.cons.inj own
    exact ⟨w, p, rfl, first, first ▸ entity⟩

end Example

/-- A release gets a work of its own, and is listed as the only one of that. -/
theorem novel_is_created_with_own_work : ∃ p : Draft (.nth 5), p.body = novel.inWork (.nth 7) ∧
    (stocked novel).releasesForWork (.nth 7) = .ok [.active p.made p.body.reread] := by
  have reachable : Reachable .counting openShelf :=
    (show Reachable .counting shelf from leads_play ..).trans (leads_play ..)
  have fresh : Source.counting.IsFresh (openShelf.drawn + 6) :=
    Source.counting_isFresh (by decide +kernel)
  have shallow : (novel.inWork (.nth 7)).nesting ≤ Json.maxDepth := by decide +kernel
  obtain ⟨⟨e, created⟩, entry, accepted⟩ := openShelf_accepts novel (by simp)
  obtain ⟨-, -, creates⟩ := reachable.entity_is_created_with_own_work fresh (.nth 5) novel
  obtain ⟨drafts, drafted, -, published⟩ := creates e (opened novel) created rfl
  obtain ⟨w, p, rfl, work, entity⟩ := opened_drafts (by simp) drafted
  have only := (published entry accepted).listed w p rfl
  rw [work, if_pos (entity ▸ shallow)] at only
  exact ⟨p, entity, only⟩

/-- A release that nests too deeply gets a work of its own as well, and both become active; but then
    the releases of that work cannot be listed. -/
theorem deep_novel_is_created_and_cannot_be_listed :
    (∃ e, (Operation.createEntity (.nth 5) (deepNovel 125)).answer .counting openShelf = .ok e) ∧
      (∃ entry, (Operation.accept (.nth 5)).answer .counting (opened (deepNovel 125)) =
        .ok entry) ∧
      (∀ id ∈ [.nth 7, .nth 10], ∃ x ∈ (stocked (deepNovel 125)).identities,
        x.id = id ∧ x.state = .active) ∧
      (stocked (deepNovel 125)).releasesForWork (.nth 7) = .error (.storage .undecodable) := by
  have reachable : Reachable .counting openShelf :=
    (show Reachable .counting shelf from leads_play ..).trans (leads_play ..)
  have there : (opened (deepNovel 125)).Arises := reachable.arises.after _ _
  have deep : Json.maxDepth < ((deepNovel 125).inWork (.nth 7)).nesting := by decide +kernel
  obtain ⟨⟨e, created⟩, entry, accepted⟩ := openShelf_accepts (deepNovel 125) (by simp)
  refine ⟨⟨e, created⟩, ⟨entry, accepted⟩, by decide +kernel, ?_⟩
  obtain ⟨-, -, drafts, creates⟩ := reachable.arises.creates_of_answer created
  obtain ⟨w, p, rfl, work, entity⟩ := opened_drafts (by simp) creates
  have only := (creates.published reachable.arises there accepted).listed w p rfl
  rw [work, if_neg (Nat.not_le.2 (entity ▸ deep))] at only
  exact only

end Biblio.Catalog
