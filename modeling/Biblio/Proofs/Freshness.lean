import Biblio.Proofs.Entries
import Biblio.Proofs.Metadata
import Biblio.Proofs.Overlap

/-! Editgroups that are not disturbed.

    An edit that creates, updates or deletes an entity is based on where the identity points when it
    is staged, and needs nothing else. So the edits of an editgroup take effect as long as nothing
    was accepted of their own identities, whatever happens to the identities around them: these may
    be merged into the edited ones, or what the edited ones redirect to may be deleted. -/

namespace Biblio

/-- The operation creates, updates or deletes an entity in this editgroup. -/
def Operation.Drafts {α : Type} (op : Operation α) (group : EditgroupId) : Prop :=
  match op with
  | createEntity g _ | updateEntity g _ _ | deleteEntity g _ => g = group
  | _ => False

namespace Catalog

/-- In this run the edit was staged by an operation that creates, updates or deletes an entity, and
    since then no editgroup with an edit of the same identity was accepted. -/
def Undisturbed (src : Source) (run : List Event) (e : Edit) : Prop :=
  ∃ (before later : List Event) (op : Event), run = before ++ op :: later ∧
    op.operation.Drafts e.editgroup ∧
    e ∉ (Catalog.empty.play src before).edits ∧
    e ∈ (op.operation.after src (Catalog.empty.play src before)).edits ∧
    ∀ entry ∈ (op.operation.after src (Catalog.empty.play src before)).acceptances src later,
      ∀ f ∈ (Catalog.empty.play src run).editsOf entry.editgroup, f.ident ≠ e.ident

end Catalog

namespace Store

/-! ### Staging -/

/-- The identities there were stay as they are, and each edit that was staged fits its identity and
    does not redirect it. -/
structure StagesFresh (s t : Store) : Prop where
  identities : ∀ x ∈ s.identities, x ∈ t.identities
  edits : ∀ e ∈ t.edits, e ∈ s.edits ∨
    e.action.isRedirect = false ∧ ∃ x ∈ t.identities, e.Fits x

instance : Std.Refl StagesFresh where
  refl _ := ⟨fun _ hx => hx, fun _ he => .inl he⟩

instance : IsTrans Store StagesFresh where
  trans s t u h h' := by
    refine ⟨fun x hx => h'.identities x (h.identities x hx), fun e he => ?_⟩
    rcases h'.edits e he with he | fresh
    · rcases h.edits e he with he | ⟨plain, x, hx, fits⟩
      · exact .inl he
      · exact .inr ⟨plain, x, h'.identities x hx, fits⟩
    · exact .inr fresh

section Staging
variable {s t : Store} {k : Deed} {group : EditgroupId}

/-- A deed that drafts stages an edit that fits. -/
theorem Change.stagesFresh (arises : s.Arises) (step : Change s k t)
    (kind : k.AddsIn group ∨ k.DraftsIn group) : s.StagesFresh t := by
  cases step with
  | stageNew x e may =>
    obtain ⟨rev, action, -⟩ := may.action
    obtain ⟨-, kept, nowhere⟩ := may.unaccepted
    refine ⟨fun y hy => List.mem_append_left _ hy, List.forall_mem_append.2
      ⟨fun f hf => .inl hf, List.forall_mem_singleton.2 (.inr ⟨by rw [action]; rfl, x, ?_⟩)⟩⟩
    exact ⟨List.mem_append_right _ (List.mem_singleton_self x),
      may.ident, kept, nowhere.trans may.base.symm⟩
  | stage x e may =>
    obtain ⟨current, plain⟩ : e.previousRevision = x.revision ∧ e.action.isRedirect = false := by
      grind
    refine ⟨fun _ hy => hy, List.forall_mem_append.2
      ⟨fun f hf => .inl hf, List.forall_mem_singleton.2 (.inr ⟨plain, x, may.known, ?_⟩)⟩⟩
    exact ⟨may.ident, may.kept, (may.base_eq (arises.isShaped x may.known) current).symm⟩
  | revision _ _ _ _ _ => exact ⟨fun _ hx => hx, fun _ he => .inl he⟩
  | _ => grind

/-- What is created, updated or deleted fits at first. -/
theorem Arises.drafts_stagesFresh {α : Type} {c : Catalog} (arises : c.Arises) (src : Source)
    (op : Operation α) (drafts : op.Drafts group) : c.StagesFresh (op.after src c).toStore := by
  refine (arises.after_leadsBy src op).related arises fun there may step =>
    step.stagesFresh there (?_ : _ ∨ Deed.DraftsIn group _)
  cases op with
  | createEntity g body | updateEntity g id body | deleteEntity g id =>
    obtain rfl : g = group := drafts
    grind [Operation.May]
  | _ => exact drafts.elim

end Staging

/-! ### Meanwhile -/

section Meanwhile
variable {s t : Store}

/-- An identity of which nothing was accepted is as it was. -/
theorem Becomes.mem_identities (h : s.Becomes t) (arises : s.Arises) {x : Identity}
    (hx : x ∈ s.identities) (same : t.log x.id = s.log x.id) : x ∈ t.identities := by
  induction h with
  | refl => exact hx
  | @tail u t before step ih =>
    obtain ⟨k, step⟩ := step
    have there := arises.becomes before
    -- the log only grows, so that it is the same all the way
    obtain ⟨-, more, hmore, -⟩ := Becomes.log_eq before arises x.id
    obtain ⟨-, more', hmore', -⟩ := Becomes.log_eq step.becomes there x.id
    have nothing : more ++ more' = [] := by
      rw [same, hmore, List.append_assoc] at hmore'
      exact List.self_eq_append_right.1 hmore'
    obtain ⟨rfl, rfl⟩ := List.append_eq_nil_iff.1 nothing
    have hx := ih (hmore.trans (List.append_nil _))
    rw [List.append_nil] at hmore'
    rcases step.log_cases there with
      ⟨-, -, unchanged | ⟨y, e, -, appended⟩⟩ | ⟨group, closedAt, acceptedAt, writable, -, rfl⟩
    · rwa [unchanged]
    · rw [appended]
      exact List.mem_append_left _ hx
    · rw [there.logged.log_accepted there.keyed writable, List.append_right_eq_self,
        List.map_eq_nil_iff, List.filter_eq_nil_iff] at hmore'
      refine List.mem_map.2 ⟨x, hx, Identity.under_of_forall_ne fun e he => ?_⟩
      simpa using hmore' e (mem_inApplicationOrder.1 he)

/-- Of an identity that no accepted editgroup had an edit of, nothing was accepted. -/
theorem Arises.log_play {src : Source} {c : Catalog} (arises : c.Arises) (later : List Event)
    {id : EntityId} (others : ∀ entry ∈ c.acceptances src later,
      ∀ f ∈ (c.play src later).editsOf entry.editgroup, f.ident ≠ id) :
    (c.play src later).log id = c.log id := by
  have becomes := (Catalog.leads_play src later c).becomes arises
  have none : c.acceptedSince (c.play src later).toStore id = [] := by
    rw [acceptedSince, List.filter_eq_nil_iff]
    rintro ⟨f, entry⟩ logged new
    obtain ⟨hentry, hf, hgroup, hid⟩ := (arises.becomes becomes).logged.mem_log.1 logged
    rw [Catalog.play_changelog arises] at hentry
    rcases List.mem_append.1 hentry with old | since
    · simp [old] at new
    · exact others entry since f (mem_editsOf.2 ⟨hf, hgroup⟩) hid
  rw [becomes.acceptedSince_eq arises, none, List.append_nil]

/-- Edits that fit and do not redirect take effect. -/
theorem Keyed.takesAll_of_fits (keyed : t.Keyed) {group : EditgroupId}
    (fits : ∀ e ∈ t.editsOf group, e.action.isRedirect = false ∧ ∃ x ∈ t.identities, e.Fits x) :
    t.TakesAll (inApplicationOrder (t.editsOf group)) := by
  rw [takesAll_iff (keyed.inApplicationOrder_nodup group)]
  refine ⟨fun e he => (fits e (mem_inApplicationOrder.1 he)).2, ?_⟩
  intro done e rest target order redirects
  have he : e ∈ inApplicationOrder (t.editsOf group) := by
    rw [order]
    exact List.mem_append_right _ List.mem_cons_self
  have plain := (fits e (mem_inApplicationOrder.1 he)).1
  rw [redirects] at plain
  cases plain

end Meanwhile

end Store

namespace Catalog

/-- An edit that was not disturbed fits its identity still, and does not redirect it. -/
theorem Undisturbed.fits {src : Source} {run : List Event} {e : Edit}
    (h : Undisturbed src run e) :
    e.action.isRedirect = false ∧ ∃ x ∈ (Catalog.empty.play src run).identities, e.Fits x := by
  obtain ⟨before, later, op, rfl, drafts, new, staged, others⟩ := h
  have arises := Reachable.arises (leads_play src before .empty)
  have fresh := arises.drafts_stagesFresh src op.operation drafts
  have there := arises.after src op.operation
  rw [play_append, play_cons] at others ⊢
  rcases fresh.edits e staged with old | ⟨plain, x, hx, fits⟩
  · exact absurd old new
  have becomes := (leads_play src later _).becomes there
  refine ⟨plain, x, becomes.mem_identities there hx ?_, fits⟩
  rw [fits.ident]
  exact there.log_play later others

/-- There are no spurious conflicts. An open editgroup whose edits come from creating, updating and
    deleting entities is accepted if, since each of them was staged, no editgroup with an edit of
    the same identity was accepted, whatever else happened in the run. Only an editgroup without
    edits can be refused, namely for metadata that cannot be read. -/
theorem accept_undisturbed {src : Source} {run : List Event} {group : EditgroupId}
    (pending : (Catalog.empty.play src run).HasOpen group)
    (undisturbed : ∀ e ∈ (Catalog.empty.play src run).editsOf group, Undisturbed src run e) :
    ((∃ entry, (Operation.accept group).answer src (Catalog.empty.play src run) = .ok entry) ↔
        (Catalog.empty.play src run).IsLegible group) ∧
      ((Catalog.empty.play src run).editsOf group ≠ [] →
        ∃ entry, (Operation.accept group).answer src (Catalog.empty.play src run) = .ok entry) ∧
      (¬(Catalog.empty.play src run).IsLegible group →
        (Operation.accept group).answer src (Catalog.empty.play src run) =
          .error (.storage .undecodable)) := by
  have arises := Reachable.arises (leads_play src run .empty)
  have refused : ¬(Catalog.empty.play src run).IsLegible group →
      (Operation.accept group).answer src (Catalog.empty.play src run) =
        .error (.storage .undecodable) := fun illegible =>
    arises.keyed.accept_of_not_isLegible illegible src
  have takes := arises.keyed.takesAll_of_fits fun e he => (undisturbed e he).fits
  have taken : (Catalog.empty.play src run).IsLegible group →
      ∃ entry, (Operation.accept group).answer src (Catalog.empty.play src run) = .ok entry := by
    intro legible
    have writable := arises.keyed.hasWritable_iff.2 ⟨pending, legible⟩
    rcases arises.answer_accept src group with
      ⟨ok, -⟩ | ⟨err, -, -, closed | ⟨-, done, e, rest, stops, -⟩⟩
    · exact ⟨_, ok⟩
    · exact absurd writable closed
    · exact absurd takes (stops.not_takesAll arises.keyed)
  refine ⟨⟨?_, taken⟩, fun some => ?_, refused⟩
  · rintro ⟨entry, ok⟩
    by_contra illegible
    cases (refused illegible).symm.trans ok
  · obtain ⟨e, he⟩ := List.exists_mem_of_ne_nil _ some
    exact taken (arises.isLegible_of_edit he)

/-- Four works, of which the first one is merged into the second one, and an open editgroup. -/
def beforeDrafts : List Event := [
  ⟨.createEditor "someone"⟩, ⟨.autoaccept (.nth 0) (.work {})⟩, ⟨.autoaccept (.nth 0) (.work {})⟩,
  ⟨.autoaccept (.nth 0) (.work {})⟩, ⟨.autoaccept (.nth 0) (.work {})⟩,
  ⟨.createEditgroup (.nth 0) none .empty⟩, ⟨.redirectEntity (.nth 17) (.nth 3) (.nth 7)⟩,
  ⟨.accept (.nth 17)⟩, ⟨.createEditgroup (.nth 0) none .empty⟩]

/-- The work that was merged gets a revision of its own again. -/
def draftUpdate : Event := ⟨.updateEntity (.nth 19) (.nth 3) (.work {})⟩

/-- The third work is deleted. -/
def draftDeletion : Event := ⟨.deleteEntity (.nth 19) (.nth 11)⟩

/-- Meanwhile the fourth work is merged into the one that is to be deleted, and the one that the
    first work was merged into is deleted. -/
def meanwhile : List Event := [
  ⟨.createEditgroup (.nth 0) none .empty⟩, ⟨.redirectEntity (.nth 23) (.nth 15) (.nth 11)⟩,
  ⟨.deleteEntity (.nth 23) (.nth 7)⟩, ⟨.accept (.nth 23)⟩]

/-- The editgroup holds the update and the deletion. -/
def draftRun : List Event := beforeDrafts ++ draftUpdate :: draftDeletion :: meanwhile

theorem draftRun_accept_undisturbed :
    (Catalog.empty.play .counting draftRun).editsOf (.nth 19) ≠ [] ∧
      ∃ entry, (Operation.accept (.nth 19)).answer .counting
        (Catalog.empty.play .counting draftRun) = .ok entry := by
  have staged : (Catalog.empty.play .counting draftRun).editsOf (.nth 19) ≠ [] := by
    decide +kernel
  have idents : ∀ e ∈ (Catalog.empty.play .counting draftRun).editsOf (.nth 19),
      e.ident = .nth 3 ∨ e.ident = .nth 11 := by
    decide +kernel
  refine ⟨staged, (accept_undisturbed (by decide +kernel) fun e he => ?_).2.1 staged⟩
  have group : e.editgroup = .nth 19 := (Store.mem_editsOf.1 he).2
  rcases idents e he with ident | ident
  · refine ⟨beforeDrafts, draftDeletion :: meanwhile, draftUpdate, rfl, group.symm, ?_⟩
    clear group
    revert e
    decide +kernel
  · refine ⟨beforeDrafts ++ [draftUpdate], meanwhile, draftDeletion, rfl, group.symm, ?_⟩
    clear group
    revert e
    decide +kernel

/-- An editgroup without edits is not disturbed, but if its metadata nests too deeply it is
    refused. -/
theorem undisturbed_deep_drawer_is_refused : ∃ (run : List Event) (group : EditgroupId),
    (Catalog.empty.play .counting run).HasOpen group ∧
      (∀ e ∈ (Catalog.empty.play .counting run).editsOf group, Undisturbed .counting run e) ∧
      ¬∃ entry, (Operation.accept group).answer .counting (Catalog.empty.play .counting run) =
        .ok entry := by
  refine ⟨deepDrawerRun, .nth 2, deepDrawer_hasOpen, ?_, ?_⟩
  · have none : deepDrawer.editsOf (.nth 2) = [] := by decide +kernel
    intro e he
    rw [show (Catalog.empty.play .counting deepDrawerRun).editsOf (.nth 2) = [] from none] at he
    cases he
  · rintro ⟨entry, ok⟩
    have reachable : Reachable .counting deepDrawer := leads_play ..
    cases (reachable.arises.keyed.accept_of_not_isLegible deepDrawer_not_isLegible
      .counting).symm.trans ok

end Catalog

end Biblio
