import Biblio.Catalog.Query
import Biblio.Proofs.Course

/-! How reading and checking fail.

    Whatever is asked of a catalog, and whatever is checked before something is written, either
    succeeds or fails for a reason that has to do with the request, as long as what is stored can be
    decoded. Such failures are told from those of the store. -/

namespace Biblio

/-- The failures that are told in terms of the request. -/
def CatalogError.IsReported : CatalogError → Prop
  | .notFound _ | .gone _ | .validation _ | .editConflict _ _ | .conflict _ _ | .notOpen _ _
  | .redirectChain _ => True
  | .invalidIdent _ | .storage _ => False

theorem Edit.RefusedBy.isReported {e : Edit} {err : CatalogError} (h : e.RefusedBy err) :
    err.IsReported := by
  rcases h with ⟨how, rfl⟩ | ⟨-, ⟨what, rfl⟩ | ⟨fault, rfl⟩⟩ <;> trivial

/-- All stored texts can be decoded. -/
structure Store.Decodes (s : Store) : Prop where
  editgroups : ∀ g ∈ s.editgroups, g.IsLegible
  revisions : ∀ r ∈ s.revisions, ∃ b, decodeStored EntityBody.decoder r.bodyText = .ok b

/-! ### Reading -/

/-- If it fails it is told why. -/
def Reports {α : Type} (x : Except CatalogError α) : Prop := ∀ err, x = .error err → err.IsReported

namespace Reports

variable {α β : Type}

theorem ok (a : α) : Reports (.ok a) := fun _ h => nomatch h

theorem error {err : CatalogError} (h : err.IsReported) : Reports (.error err : Except _ α) := by
  rintro _ ⟨⟩
  exact h

theorem of_ok {x : Except CatalogError α} (h : ∃ a, x = .ok a) : Reports x := by
  obtain ⟨a, rfl⟩ := h
  exact ok a

theorem found (what : Missing) (o : Option α) : Reports (Biblio.found what o) := by
  cases o with
  | some a => exact ok a
  | none => exact error trivial

theorem bind {x : Except CatalogError α} {f : α → Except CatalogError β} (h : Reports x)
    (h' : ∀ a, x = .ok a → Reports (f a)) : Reports (x >>= f) := by
  cases x with
  | ok a => exact h' a rfl
  | error err => exact error (h err rfl)

theorem map {x : Except CatalogError α} {f : α → β} (h : Reports x) : Reports (x.map f) := by
  cases x with
  | ok a => exact ok _
  | error err => exact error (h err rfl)

theorem mapM {f : α → Except CatalogError β} {as : List α} (h : ∀ a ∈ as, Reports (f a)) :
    Reports (as.mapM f) := by
  rcases mapM_cases f as with all | ⟨a, ha, err, failed, all⟩
  · exact of_ok all
  · rw [all]
    exact error (h a ha err failed)

/-- A check that fails or does nothing. -/
theorem check {p : Prop} [Decidable p] {err : CatalogError} (h : err.IsReported) :
    Reports (if p then throw err else pure () : Except CatalogError Unit) := by
  split
  · exact error h
  · exact ok ()

/-- A check in front of what follows. -/
theorem guard {p : Prop} [Decidable p] {err : CatalogError} {f : Unit → Except CatalogError α}
    (h : err.IsReported) (h' : Reports (f ())) :
    Reports (if p then throw err >>= f else f ()) := by
  split
  · exact error h
  · exact h'

/-- One thing or another in front of what follows. -/
theorem either {p : Prop} [Decidable p] {x y : Except CatalogError α}
    {f : α → Except CatalogError β} (h : Reports x) (h' : Reports y) (h'' : ∀ a, Reports (f a)) :
    Reports (if p then x >>= f else y >>= f) := by
  split
  · exact bind h fun a _ => h'' a
  · exact bind h' fun a _ => h'' a

end Reports

namespace Store

variable {s : Store}

/-! ### Editgroups and editors -/

theorem header_reports {row : EditgroupRow} (legible : row.IsLegible) :
    Reports (headerOfRow row) :=
  .of_ok (isLegible_iff.1 legible)

section Legible
variable (legible : ∀ g ∈ s.editgroups, g.IsLegible)
include legible

theorem getEditgroupHeader_reports (id : EditgroupId) : Reports (s.getEditgroupHeader id) := by
  refine .bind (.found _ _) fun row hrow => header_reports (legible row ?_)
  exact List.mem_of_find?_eq_some (found_eq_ok.1 hrow)

theorem requireOpen_reports (id : EditgroupId) : Reports (s.requireOpen id) := by
  refine .bind (getEditgroupHeader_reports legible id) fun header _ => ?_
  split
  · exact .ok _
  · exact .error trivial

theorem openEditgroupOf_reports (e : Editor) : Reports (s.openEditgroupOf e) := by
  unfold openEditgroupOf
  split
  · exact .ok _
  · exact .bind (getEditgroupHeader_reports legible _) fun _ _ => .ok _

theorem editgroupsOfEditor_reports (editor : EditorId) : Reports (s.editgroupsOfEditor editor) := by
  refine .mapM fun row hrow => header_reports (legible row ?_)
  rw [(List.mergeSort_perm _ _).mem_iff, List.mem_reverse] at hrow
  exact List.mem_of_mem_filter hrow

end Legible

theorem checkUsername_reports (username : String) (s : Store) :
    Reports (s.checkUsername username) := by
  unfold checkUsername
  split
  · exact .error trivial
  · split
    · exact .error trivial
    · exact .ok _

/-! ### Bodies, edits and redirects -/

theorem checkBody_reports (body : EntityBody) (s : Store) : Reports (s.checkBody body) := by
  unfold checkBody
  split
  · exact .ok _
  · exact .error trivial

theorem newBase_reports (kind : EntityKind) (previous : Option RevisionId) (action : EditAction) :
    Reports (newBase kind previous action) := by
  unfold newBase
  refine Reports.guard trivial ?_
  refine Reports.guard trivial ?_
  exact .ok _

theorem existingBase_reports (group : EditgroupId) (id : EntityId) (previous : Option RevisionId)
    (s : Store) : Reports (s.existingBase group id previous) := by
  refine .bind (.found _ _) fun x _ => ?_
  refine Reports.guard trivial ?_
  refine Reports.guard trivial ?_
  refine Reports.guard trivial ?_
  refine Reports.guard trivial ?_
  exact .ok _

theorem checkRedirectTarget_reports (source target : EntityId) (s : Store) :
    Reports (s.checkRedirectTarget source target) := by
  unfold checkRedirectTarget
  refine Reports.guard trivial (.bind (.found _ _) fun x _ => ?_)
  refine Reports.guard trivial ?_
  refine Reports.guard trivial ?_
  cases x.redirect with
  | some next => exact .error trivial
  | none => exact .ok x

theorem redirectTargetKind_reports (group : EditgroupId) (source target : EntityId) (s : Store) :
    Reports (s.redirectTargetKind group source target) := by
  unfold redirectTargetKind
  split
  · exact .ok _
  · exact .map (checkRedirectTarget_reports source target s)

theorem checkAction_reports (group : EditgroupId) (base : EditBase) (action : EditAction)
    (s : Store) : Reports (s.checkAction group base action) := by
  unfold checkAction
  split
  · exact .bind (.found _ _) fun _ _ => .check trivial
  · exact .bind (redirectTargetKind_reports _ _ _ _) fun _ _ => .check trivial
  · exact .error trivial
  · exact .ok _

theorem checkPrevious_reports (previous : Option RevisionId) (s : Store) :
    Reports (s.checkPrevious previous) := by
  cases previous with
  | none => exact .ok _
  | some rev => exact .map (.found _ _)

theorem resolve_reports (id : EntityId) (s : Store) : Reports (s.resolve id) := by
  refine .bind (.found _ _) fun x _ => ?_
  refine Reports.guard trivial ?_
  cases x.redirect with
  | none => exact .ok _
  | some target =>
    refine .bind (.found _ _) fun y _ => ?_
    refine Reports.guard trivial ?_
    cases y.redirect with
    | some next => exact .error trivial
    | none => exact .ok _

/-! ### Questions -/

section Questions
variable (decodes : s.Decodes)
include decodes

theorem getRevision_reports (id : RevisionId) : Reports (s.getRevision id) := by
  refine .bind (.found _ _) fun row hrow => ?_
  obtain ⟨b, hb⟩ := decodes.revisions row (List.mem_of_find?_eq_some (found_eq_ok.1 hrow))
  rw [hb]
  exact .ok _

theorem shownRevision_reports (revision : Option RevisionId) :
    Reports (s.shownRevision revision) := by
  cases revision with
  | none => exact .ok _
  | some rev => exact .map (getRevision_reports decodes rev)

theorem shownThroughRedirect_reports (id : EntityId) : Reports (s.shownThroughRedirect id) := by
  have reports := resolve_reports id s
  unfold shownThroughRedirect
  split
  · exact shownRevision_reports decodes _
  · exact .ok _
  · exact .ok _
  · rename_i err _ failed
    exact .error (reports err failed)

theorem viewOf_reports (x : Identity) : Reports (s.viewOf x) := by
  refine .bind ?_ fun _ _ => .ok _
  unfold shown
  split
  · exact .error trivial
  · exact .ok _
  · exact shownRevision_reports decodes _
  · exact shownThroughRedirect_reports decodes _

theorem getEntity_reports (id : EntityId) : Reports (s.getEntity id) :=
  .bind (.found _ _) fun x _ => viewOf_reports decodes x

theorem visible_reports (id : Option EntityId) : Reports (s.visible id) := by
  cases id with
  | none => exact .ok _
  | some id =>
    have reports := getEntity_reports decodes id
    unfold visible
    simp only
    split
    · exact .ok _
    · exact .ok _
    · rename_i err _ failed
      exact .error (reports err failed)

theorem visibleAll_reports (ids : List EntityId) : Reports (s.visibleAll ids) :=
  .map (.mapM fun id _ => visible_reports decodes (some id))

theorem referrersOfKind_reports (relation : RelationKind) (target : EntityId) (kind : EntityKind) :
    Reports (s.referrersOfKind relation target kind) :=
  .mapM fun x _ => viewOf_reports decodes x

theorem lookup_reports (x : ExternalId) : Reports (s.lookup x) := by
  refine .bind ?_ fun _ _ => .bind (.found _ _) fun y _ => viewOf_reports decodes y
  unfold checkExternalId
  split
  · exact .error trivial
  · exact .ok _

theorem expand_reports (view : EntityView) (r : Release) (flags : ExpandFlags)
    (shown : EntityView) : Reports (s.expand view r flags shown) := by
  unfold expand
  refine Reports.either (visible_reports decodes _) (.ok _) fun work => ?_
  refine Reports.either (visible_reports decodes _) (.ok _) fun container => ?_
  refine Reports.either (visibleAll_reports decodes _) (.ok _) fun creators => ?_
  refine Reports.either (referrersOfKind_reports decodes _ _ _) (.ok _) fun files => ?_
  exact .ok _

theorem expandedRelease_reports (id : EntityId) (flags : ExpandFlags) (hidden : HideFlags) :
    Reports (s.expandedRelease id flags hidden) := by
  refine .bind (getEntity_reports decodes id) fun view _ => ?_
  refine Reports.guard trivial ?_
  split
  · exact expand_reports decodes _ _ _ _
  · exact .ok _

theorem history_reports (id : EntityId) : Reports (s.history id) :=
  .bind (.found _ _) fun _ _ => .mapM fun _ _ =>
    .bind (getEditgroupHeader_reports decodes.editgroups _) fun _ _ => .bind (.found _ _)
      fun _ _ => .ok _

/-- Whatever is asked, if there is no answer it is told why. -/
theorem answer_reports {α : Type} (q : Query α) (handle : Handle) :
    Reports (q.answer handle s) := by
  cases q with
  | editor id => exact .found _ _
  | editorNamed username => exact .found _ _
  | editgroupsOfEditor id => exact editgroupsOfEditor_reports decodes.editgroups id
  | editgroup id => exact .bind (getEditgroupHeader_reports decodes.editgroups id) fun _ _ => .ok _
  | revision id => exact getRevision_reports decodes id
  | resolution id => exact resolve_reports id s
  | changelogEntry seq => exact .found _ _
  | entity id hidden => exact .map (getEntity_reports decodes id)
  | lookup x => exact lookup_reports decodes x
  | anyEntity kind choice => exact .bind (.found _ _) fun x _ => viewOf_reports decodes x
  | history id => exact history_reports decodes id
  | expandedRelease id flags hidden => exact expandedRelease_reports decodes id flags hidden
  | releasesForWork work => exact referrersOfKind_reports decodes _ _ _
  | filesForRelease release => exact referrersOfKind_reports decodes _ _ _
  | editsOf _ | changelog _ _ | latestChangelog | changelogOf _ | countEntities _ => exact .ok _

end Questions

end Store

end Biblio
