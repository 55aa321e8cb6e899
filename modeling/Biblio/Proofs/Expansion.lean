import Biblio.Proofs.Legibility

/-! Releases with what is linked to them.

    An expanded release is put together from what is read of the entities one by one: the release as
    the reader wants to see it, and with it the views of what the whole release refers to and the
    files that are copies of it. What readers do not get to see of the links is left out. Only one
    thing can keep a release from being expanded that can be read itself: what is linked to it and
    wanted has a body that nests too deeply to be read. -/

namespace Biblio

/-- What is linked to a release. -/
def ReleaseExpansion.links (x : ReleaseExpansion) :
    Option EntityView × Option EntityView × List EntityView × List EntityView :=
  (x.work, x.container, x.creators, x.files)

namespace Store

/-- The entity as readers see it, if they see it. -/
def seen? (s : Store) (id : EntityId) : Option EntityView := (s.getEntity id).toOption

/-- The release of a view with what is linked to it, put together from what is read of each. -/
def expansion (s : Store) (v : EntityView) (flags : ExpandFlags) (hidden : HideFlags) :
    ReleaseExpansion :=
  match v.release? with
  | none =>
    { release := v.hide hidden, work := none, container := none, creators := [], files := [] }
  | some r =>
    { release := v.hide hidden
      work := if flags.work then r.workId.bind s.seen? else none
      container := if flags.container then r.containerId.bind s.seen? else none
      creators := if flags.creators then r.creatorIds.filterMap s.seen? else []
      files := if flags.files then
          (s.filesForRelease (v.redirect.getD v.ident)).toOption.getD []
        else [] }

@[simp] theorem release_expansion (s : Store) (v : EntityView) (flags : ExpandFlags)
    (hidden : HideFlags) : (s.expansion v flags hidden).release = v.hide hidden := by
  unfold expansion
  cases v.release? <;> rfl

theorem work_expansion (s : Store) {v : EntityView} {flags : ExpandFlags} {hidden : HideFlags}
    {r : Release} (release : v.release? = some r) (wanted : flags.work = true) :
    (s.expansion v flags hidden).work = r.workId.bind s.seen? := by
  rw [expansion, release]
  simp only [wanted, if_true]

/-- What is linked does not depend on what is hidden. -/
theorem links_expansion (s : Store) (v : EntityView) (flags : ExpandFlags)
    (hidden hidden' : HideFlags) :
    (s.expansion v flags hidden').links = (s.expansion v flags hidden).links := by
  unfold expansion
  cases v.release? <;> rfl

/-- Nothing that a reader wants to see with a release nests too deeply to be read. -/
structure CanExpand (s : Store) (v : EntityView) (flags : ExpandFlags) (r : Release) : Prop where
  work : flags.work = true → ∀ id, r.workId = some id → ¬s.ShowsDeep id
  container : flags.container = true → ∀ id, r.containerId = some id → ¬s.ShowsDeep id
  creators : flags.creators = true → ∀ id ∈ r.creatorIds, ¬s.ShowsDeep id
  files : flags.files = true → ∀ x b, s.HasBody x b → b.IsCopyOf (v.redirect.getD v.ident) →
    b.nesting ≤ Json.maxDepth

/-! ### Answers that depth keeps back -/

/-- This is the answer if it can be given; if not, there is something that cannot be decoded. -/
structure Yields {α : Type} (can : Prop) (a : α) (answer : Except CatalogError α) : Prop where
  ok : can → answer = .ok a
  fails : ¬can → answer = .error (.storage .undecodable)

namespace Yields

variable {α β : Type} {can can' : Prop} {a : α} {b : β} {x : Except CatalogError α}
  {f : α → Except CatalogError β}

theorem pure (a : α) : Yields True a (.ok a) := ⟨fun _ => rfl, fun not => absurd trivial not⟩

theorem congr (h : Yields can a x) (same : can ↔ can') : Yields can' a x :=
  ⟨fun yes => h.ok (same.2 yes), fun no => h.fails (mt same.1 no)⟩

theorem map {g : α → β} (h : Yields can a x) : Yields can (g a) (x.map g) where
  ok yes := by
    rw [h.ok yes]
    rfl
  fails no := by
    rw [h.fails no]
    rfl

theorem bind (h : Yields can a x) (h' : Yields can' b (f a)) :
    Yields (can ∧ can') b (x >>= f) where
  ok yes := by rw [h.ok yes.1, Except.ok_bind, h'.ok yes.2]
  fails no := by
    by_cases first : can
    · rw [h.ok first, Except.ok_bind]
      exact h'.fails fun second => no ⟨first, second⟩
    · rw [h.fails first, Except.error_bind]

/-- What is wanted in front of what follows, or something else instead. -/
theorem either {flag : Bool} {d : α} (h : Yields can a x)
    (h' : Yields can' b (f (if flag then a else d))) :
    Yields ((flag = true → can) ∧ can') b (if flag then x >>= f else Pure.pure d >>= f) := by
  cases flag with
  | true => exact (h.bind h').congr (by simp)
  | false => exact ((pure d).bind h').congr (by simp)

/-- All answers of a list can be given, or the first that cannot keeps them back. -/
theorem mapM {can : α → Prop} {g : α → β} {as : List α}
    (h : ∀ a ∈ as, Yields (can a) (g a) (f a)) :
    Yields (∀ a ∈ as, can a) (as.map g) (as.mapM f) where
  ok yes := by
    rw [mapM_eq_ok, List.map_map]
    exact List.map_congr_left fun a ha => (h a ha).ok (yes a ha)
  fails no := by
    rcases mapM_cases f as with ⟨bs, all⟩ | ⟨a, ha, err, failed, all⟩
    · refine absurd (fun a ha => ?_) no
      by_contra cannot
      have given : f a ∈ bs.map Except.ok := mapM_eq_ok.1 all ▸ List.mem_map_of_mem ha
      obtain ⟨b, -, hb⟩ := List.mem_map.1 given
      cases hb.trans ((h a ha).fails cannot)
    · have cannot : ¬can a := fun yes => by cases failed.symm.trans ((h a ha).ok yes)
      obtain rfl := Except.error.inj (failed.symm.trans ((h a ha).fails cannot))
      exact all

end Yields

/-! ### Linked entities -/

section Links
variable {s : Store}

/-- What readers see at the end of a link is what they see of the entity. -/
theorem Arises.visible_yields (h : s.Arises) (link : Option EntityId) :
    Yields (∀ id, link = some id → ¬s.ShowsDeep id) (link.bind s.seen?) (s.visible link) := by
  cases link with
  | none => exact (Yields.pure none).congr (by simp)
  | some id =>
    simp only [Option.some.injEq, forall_eq', Option.bind_some]
    have deep : s.ShowsDeep id → s.getEntity id = .error (.storage .undecodable) :=
      h.getEntity_of_showsDeep
    rcases h.getEntity_cases id with hides | ⟨x, hx, -, v, shown, -⟩ | deep'
    · have unseen := hides.getEntity_eq
      refine ⟨fun _ => by simp [visible, seen?, unseen, Except.toOption], fun no => ?_⟩
      cases unseen.symm.trans (deep (not_not.1 no))
    · refine ⟨fun _ => by simp [visible, seen?, shown, Except.toOption], fun no => ?_⟩
      cases shown.symm.trans (deep (not_not.1 no))
    · exact ⟨fun not => absurd deep' not, fun _ => by simp [visible, deep deep']⟩

theorem Arises.visibleAll_yields (h : s.Arises) (ids : List EntityId) :
    Yields (∀ id ∈ ids, ¬s.ShowsDeep id) (ids.filterMap s.seen?) (s.visibleAll ids) := by
  have each : ∀ id ∈ ids, Yields (¬s.ShowsDeep id) (s.seen? id) (s.visible (some id)) :=
    fun id _ => (h.visible_yields (some id)).congr (by simp)
  have all := (Yields.mapM each).map (g := fun views : List (Option EntityView) =>
    views.filterMap id)
  rwa [List.filterMap_map] at all

theorem Arises.filesForRelease_yields (h : s.Arises) (release : EntityId) :
    Yields (∀ x b, s.HasBody x b → b.IsCopyOf release → b.nesting ≤ Json.maxDepth)
      ((s.filesForRelease release).toOption.getD []) (s.filesForRelease release) where
  ok shallow := by
    obtain ⟨vs, ok⟩ := (h.filesForRelease_lists release).answers shallow
    rw [ok]
    rfl
  fails no := by
    simp only [not_forall, Nat.not_le] at no
    obtain ⟨x, b, hb, copy, deep⟩ := no
    exact (h.filesForRelease_lists release).fails x b hb copy deep

/-- A release is put together with its links, unless one that is wanted cannot be read. -/
theorem Arises.expand_yields (h : s.Arises) {v : EntityView} {r : Release}
    (release : v.release? = some r) (flags : ExpandFlags) (hidden : HideFlags) :
    Yields (s.CanExpand v flags r) (s.expansion v flags hidden)
      (s.expand v r flags (v.hide hidden)) := by
  have put : Yields ((flags.work = true → ∀ id, r.workId = some id → ¬s.ShowsDeep id) ∧
      (flags.container = true → ∀ id, r.containerId = some id → ¬s.ShowsDeep id) ∧
      (flags.creators = true → ∀ id ∈ r.creatorIds, ¬s.ShowsDeep id) ∧
      (flags.files = true → ∀ x b, s.HasBody x b → b.IsCopyOf (v.redirect.getD v.ident) →
        b.nesting ≤ Json.maxDepth) ∧ True)
      (s.expansion v flags hidden) (s.expand v r flags (v.hide hidden)) := by
    rw [expand, expansion, release]
    refine .either (h.visible_yields r.workId) ?_
    refine .either (h.visible_yields r.containerId) ?_
    refine .either (h.visibleAll_yields r.creatorIds) ?_
    exact .either (h.filesForRelease_yields _) (.pure _)
  refine put.congr ⟨?_, fun can => ⟨can.work, can.container, can.creators, can.files, trivial⟩⟩
  rintro ⟨work, container, creators, files, -⟩
  exact ⟨work, container, creators, files⟩

theorem Keyed.ident_of_getEntity (keyed : s.Keyed) {id : EntityId} {v : EntityView}
    (shown : s.getEntity id = .ok v) : v.ident = id := by
  obtain ⟨x, known, view⟩ := Except.bind_eq_ok.1 shown
  exact (ident_of_viewOf view).trans (keyed.getIdentity_eq_ok.1 known).2

/-- The body that is shown of a release is that of a release, if there is one. -/
theorem Arises.release_of_getEntity (h : s.Arises) {id : EntityId} {v : EntityView}
    (shown : s.getEntity id = .ok v) (kind : v.kind = .release) :
    v.body = none ∨ ∃ r, v.body = some (.release r) := by
  have isRelease : ∀ {b : EntityBody}, b.kind = .release → ∃ r, some b = some (.release r) := by
    intro b hb
    cases b with
    | release r => exact ⟨r, rfl⟩
    | _ => cases hb
  rcases h.getEntity_cases id with hides | ⟨x, hx, rfl, w, shown', -, shows⟩ | deep
  · cases shown.symm.trans hides.getEntity_eq
  swap
  · cases shown.symm.trans (h.getEntity_of_showsDeep deep)
  obtain rfl := Except.ok.inj (shown.symm.trans shown')
  cases state : x.state with
  | wip =>
    rw [state] at shows
    exact shows.elim
  | deleted =>
    rw [state] at shows
    exact .inl (by rw [shows])
  | active =>
    rw [state] at shows
    obtain ⟨rev, r, -, -, -, bodyKind, rfl⟩ := shows
    exact .inr (isRelease (bodyKind.trans kind))
  | redirect =>
    rw [state] at shows
    obtain ⟨target, w, hred, hw, -, -, rfl⟩ := shows
    obtain ⟨y, there, sameKind, -⟩ := h.lands hx hred
    obtain ⟨z, hz, there', same, active | deleted⟩ := h.getEntity_target hx hred <;>
      obtain rfl := Option.some.inj (there.symm.trans there')
    · rcases h.viewOf_cases_of_active hz active with ⟨u, hu, shows⟩ | deep
      · obtain rfl := Except.ok.inj (hw.symm.trans (same.trans hu))
        obtain ⟨rev, r, -, -, -, bodyKind, rfl⟩ := shows
        exact .inr (isRelease (bodyKind.trans (sameKind.trans kind)))
      · cases hw.symm.trans (same.trans (h.viewOf_of_holdsDeep hz deep))
    · obtain rfl := Except.ok.inj (hw.symm.trans (same.trans (viewOf_of_deleted deleted)))
      exact .inl rfl

/-- A release that can be read itself is put together with its links. -/
theorem Arises.expandedRelease_yields (h : s.Arises) {id : EntityId} {v : EntityView}
    (shown : s.getEntity id = .ok v) (kind : v.kind = .release) (flags : ExpandFlags)
    (hidden : HideFlags) :
    Yields (∀ r, v.release? = some r → s.CanExpand v flags r) (s.expansion v flags hidden)
      (s.expandedRelease id flags hidden) := by
  cases release : v.release? with
  | none =>
    have bare : s.expandedRelease id flags hidden = .ok (s.expansion v flags hidden) := by
      simp [expandedRelease, expansion, shown, kind, release]
    rw [bare]
    exact (Yields.pure _).congr (by simp)
  | some r =>
    have linked : s.expandedRelease id flags hidden = s.expand v r flags (v.hide hidden) := by
      simp [expandedRelease, shown, kind, release]
    rw [linked]
    exact (h.expand_yields release flags hidden).congr (by simp)

theorem expandedRelease_of_other_kind {id : EntityId} {v : EntityView}
    (shown : s.getEntity id = .ok v) (kind : v.kind ≠ .release) (flags : ExpandFlags)
    (hidden : HideFlags) :
    s.expandedRelease id flags hidden = .error (.notFound (.release id)) := by
  simp [expandedRelease, shown, kind]

/-- A release is expanded exactly when it can be read itself, and all that is wanted with it. -/
theorem Arises.expandedRelease_eq_ok (h : s.Arises) {id : EntityId} {flags : ExpandFlags}
    {hidden : HideFlags} {x : ReleaseExpansion} :
    s.expandedRelease id flags hidden = .ok x ↔
      ∃ v, s.getEntity id = .ok v ∧ v.kind = .release ∧
        (∀ r, v.release? = some r → s.CanExpand v flags r) ∧ x = s.expansion v flags hidden := by
  constructor
  · intro ok
    cases shown : s.getEntity id with
    | error err => cases ok.symm.trans (expandedRelease_of_error shown flags hidden)
    | ok v =>
      by_cases kind : v.kind = .release
      · have yields := h.expandedRelease_yields shown kind flags hidden
        by_cases can : ∀ r, v.release? = some r → s.CanExpand v flags r
        · exact ⟨v, rfl, kind, can, Except.ok.inj (ok.symm.trans (yields.ok can))⟩
        · cases ok.symm.trans (yields.fails can)
      · cases ok.symm.trans (expandedRelease_of_other_kind shown kind flags hidden)
  · rintro ⟨v, shown, kind, can, rfl⟩
    exact (h.expandedRelease_yields shown kind flags hidden).ok can

/-- What is hidden of a release makes no difference to its links. -/
theorem Arises.links_expandedRelease (h : s.Arises) (id : EntityId) (flags : ExpandFlags)
    (hidden hidden' : HideFlags) :
    (s.expandedRelease id flags hidden').map (·.links) =
      (s.expandedRelease id flags hidden).map (·.links) := by
  cases shown : s.getEntity id with
  | error err => simp only [expandedRelease_of_error shown]
  | ok v =>
    by_cases kind : v.kind = .release
    · have yields := h.expandedRelease_yields shown kind flags
      by_cases can : ∀ r, v.release? = some r → s.CanExpand v flags r
      · rw [(yields hidden).ok can, (yields hidden').ok can]
        exact congrArg Except.ok (s.links_expansion v flags hidden hidden')
      · rw [(yields hidden).fails can, (yields hidden').fails can]
    · simp only [expandedRelease_of_other_kind shown kind]

end Links

end Store

namespace Catalog

/-- An expanded release is composed of what is read of the entities one by one. It is the release as
    it is read with these fields hidden, and with it what is read of the links of the whole release,
    whatever is hidden of it. Beside that the release itself has to be read, only the depth of what
    is linked to it and wanted can keep it from being expanded. -/
theorem Reachable.expansion_composes_reads {src : Source} {c : Catalog} (h : Reachable src c)
    (id : EntityId) (flags : ExpandFlags) :
    (∀ hidden, (∃ x, c.expandedRelease id flags hidden = .ok x) ↔
        ∃ v, c.getEntity id = .ok v ∧ v.kind = .release ∧
          ∀ r, v.release? = some r → c.CanExpand v flags r) ∧
      (∀ hidden x, c.expandedRelease id flags hidden = .ok x →
        c.getEntityWith id hidden = .ok x.release ∧
          ∃ v, c.getEntity id = .ok v ∧ v.ident = id ∧
            (v.body = none ∨ ∃ r, v.body = some (.release r)) ∧
            x = c.expansion v flags hidden) ∧
      (∀ hidden err v, c.expandedRelease id flags hidden = .error err → c.getEntity id = .ok v →
        v.kind = .release →
          err = .storage .undecodable ∧ ∃ r, v.release? = some r ∧ ¬c.CanExpand v flags r) ∧
      ∀ hidden hidden', (c.expandedRelease id flags hidden').map (·.links) =
        (c.expandedRelease id flags hidden).map (·.links) := by
  have arises := h.arises
  refine ⟨fun hidden => ?_, fun hidden x ok => ?_, fun hidden err v failed shown kind => ?_,
    arises.links_expandedRelease id flags⟩
  · simp only [arises.expandedRelease_eq_ok]
    constructor
    · rintro ⟨x, v, shown, kind, can, -⟩
      exact ⟨v, shown, kind, can⟩
    · rintro ⟨v, shown, kind, can⟩
      exact ⟨_, v, shown, kind, can, rfl⟩
  · obtain ⟨v, shown, kind, -, rfl⟩ := arises.expandedRelease_eq_ok.1 ok
    refine ⟨?_, v, shown, arises.keyed.ident_of_getEntity shown,
      arises.release_of_getEntity shown kind, rfl⟩
    rw [Store.getEntityWith, shown, Store.release_expansion]
    rfl
  · have yields := arises.expandedRelease_yields shown kind flags hidden
    by_cases can : ∀ r, v.release? = some r → c.CanExpand v flags r
    · cases failed.symm.trans (yields.ok can)
    · refine ⟨Except.error.inj (failed.symm.trans (yields.fails can)), ?_⟩
      simpa using can

/-- A reader of a release of the example gets to see its work. -/
theorem published_expansion_composes_reads :
    ∃ x w, published.expandedRelease (.nth 7) .all .none = .ok x ∧
      published.getEntity (.nth 3) = .ok w ∧ x.work = some w := by
  have reachable : Reachable .counting published := leads_play ..
  have arises := reachable.arises
  obtain ⟨y, hy, hid, release⟩ : ∃ y ∈ published.identities, y.id = .nth 7 ∧
      y.kind = .release := by decide +kernel
  have hasBody := published_hasBody hy release
  have shown : published.getEntity (.nth 7) = .ok (.active y book.reread) := by
    rw [← hid, arises.keyed.getEntity_of_mem hy, arises.viewOf_of_hasBody hasBody,
      if_pos (published_shallow hasBody)]
  have works : (published.getEntity (.nth 3)).isOk = true := by decide +kernel
  obtain ⟨-, composed, failures, -⟩ := reachable.expansion_composes_reads (.nth 7) .all
  cases hw : published.getEntity (.nth 3) with
  | error err =>
    rw [hw] at works
    cases works
  | ok w =>
    have here : book.reread.release? = some _ := rfl
    cases expanded : published.expandedRelease (.nth 7) .all .none with
    | error err =>
      obtain ⟨-, r, hr, cannot⟩ := failures _ err _ expanded shown release
      obtain rfl := Option.some.inj (here.symm.trans hr)
      refine absurd ⟨fun _ id hid => ?_, fun _ id hid => ?_, fun _ id hid => ?_,
        fun _ x b hb _ => published_shallow hb⟩ cannot
      · obtain rfl := Option.some.inj (show some (.nth 3) = some id from hid)
        intro deep
        cases hw.symm.trans (arises.getEntity_of_showsDeep deep)
      · cases (show none = some id from hid)
      · exact absurd hid List.not_mem_nil
    | ok x =>
      obtain ⟨-, v, shown', -, -, rfl⟩ := composed _ x expanded
      obtain rfl := Except.ok.inj (shown.symm.trans shown')
      refine ⟨_, w, rfl, rfl, ?_⟩
      rw [Store.work_expansion _ (show (EntityView.active y book.reread).release? = some _ from rfl)
        rfl]
      change (some (.nth 3)).bind published.seen? = some w
      rw [Option.bind_some, Store.seen?, hw]
      rfl

/-- A work with metadata that nests deep. -/
def deepWork (depth : Nat) : EntityBody :=
  .work { extra := .ofMembers [("deep", .nested depth)] }

/-- A release of the work that was made first. -/
def volume : EntityBody := .release { title := "a volume", workId := some (.nth 3) }

/-- An editor. -/
def desk : Catalog := Catalog.empty.play .counting [⟨.createEditor "someone"⟩]

/-- A release of a work whose body cannot be read. -/
def deepSeries : Catalog :=
  ((Operation.createRevision (deepWork 125)).after .counting desk).play .counting [
    ⟨.createEditgroup (.nth 0) none .empty⟩,
    ⟨.stageEdit (.nth 2) (.new .work) none (.update (.nth 1))⟩, ⟨.accept (.nth 2)⟩,
    ⟨.autoaccept (.nth 0) volume⟩]

/-- A release can be read that cannot be expanded. -/
theorem deep_work_keeps_release_from_being_expanded :
    Reachable .counting deepSeries ∧
      (∃ v, deepSeries.getEntity (.nth 7) = .ok v ∧ v.kind = .release) ∧
      deepSeries.expandedRelease (.nth 7) { work := true } .none =
        .error (.storage .undecodable) := by
  have deep : Json.maxDepth < (deepWork 125).nesting := by decide +kernel
  have reachable : Reachable .counting desk := leads_play ..
  have accepted : (Operation.createRevision (deepWork 125)).answer .counting desk =
      .ok (.nth 1) := by decide +kernel
  have run : Leads .counting ((Operation.createRevision (deepWork 125)).after .counting desk)
      deepSeries := leads_play ..
  have created := reachable.arises.after .counting (.createRevision (deepWork 125))
  have arises : deepSeries.Arises := created.becomes (run.becomes created)
  obtain ⟨r, hr, hid, hb⟩ := reachable.revision_stays accepted run
  obtain ⟨x, hx, active, hrev, hx3⟩ : ∃ x ∈ deepSeries.identities, x.state = .active ∧
      x.revision = some (.nth 1) ∧ x.id = .nth 3 := by decide +kernel
  -- the work is there, but it cannot be read
  have work : deepSeries.ShowsDeep (.nth 3) :=
    ⟨x, hx, hx3, .inl ⟨.nth 1, hrev, r, hr, hid, _, hb, deep⟩⟩
  have release : (deepSeries.getEntity (.nth 7)).map (fun v => (v.kind, v.body)) =
      .ok (.release, some volume) := by decide +kernel
  obtain ⟨v, shown, same⟩ := Except.map_eq_ok.1 release
  obtain ⟨kind, body⟩ := Prod.mk.inj same
  refine ⟨(Leads.go _ reachable).trans run, ⟨v, shown, kind⟩, ?_⟩
  refine (arises.expandedRelease_yields shown kind _ _).fails fun can => ?_
  exact (can _ (by rw [EntityView.release?, body]; rfl)).work rfl (.nth 3) rfl work

end Catalog

end Biblio
