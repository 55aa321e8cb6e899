import Biblio.Proofs.Allocation
import Biblio.Proofs.Drawn
import Biblio.Proofs.Failures
import Biblio.Proofs.Lookups

/-! The store never has to refuse anything.

    Each condition that the tables demand of a row is covered by a check before it, by what is
    preserved of the tables, or by identifiers being new. So a request that fails is told why in
    terms of the request; the store itself is heard of only where a stored text cannot be
    decoded. -/

namespace Biblio

/-! ### Writing -/

namespace Catalog

/-- Everything is there that a request relies on: the tables arise, their rows have identifiers that
    were drawn, and the metadata of editgroups can be read. -/
structure IsReady (src : Source) (c : Catalog) : Prop where
  arises : c.Arises
  isDrawn : c.IsDrawn src
  legible : ∀ g ∈ c.editgroups, g.IsLegible

/-- No row has this identifier. -/
structure IsNew (c : Catalog) (u : Uuid) : Prop where
  editor : (c.editor? ⟨u⟩).isNone = true
  editgroup : (c.editgroupRow? ⟨u⟩).isNone = true
  revision : (c.revisionRow? ⟨u⟩).isNone = true
  identity : (c.identity? ⟨u⟩).isNone = true
  edit : (c.edit? ⟨u⟩).isNone = true

theorem isNone_of_notMem {α : Type} {kind : IdentKind} {f : α → Ident kind} {rows : List α}
    {u : Uuid} (h : u ∉ rows.map fun row => (f row).uuid) :
    (rows.find? (f · == ⟨u⟩)).isNone = true := by
  refine Store.find?_isNone_iff.2 fun row hrow same => h ?_
  exact List.mem_map.2 ⟨row, hrow, congrArg Ident.uuid same⟩

/-- An identifier that is still to be drawn is that of no row, unless the source repeats itself. -/
theorem IsDrawn.isNew_of_le {src : Source} {c : Catalog} (h : c.IsDrawn src) {n : Nat}
    (le : c.drawn ≤ n) (fresh : src.IsFresh (n + 1)) : c.IsNew (src.id n) := by
  have new := h.notMem le fresh
  simp only [Store.mem_ids, not_or] at new
  obtain ⟨editors, editgroups, revisions, identities, edits⟩ := new
  exact ⟨isNone_of_notMem editors, isNone_of_notMem editgroups, isNone_of_notMem revisions,
    isNone_of_notMem identities, isNone_of_notMem edits⟩

theorem IsDrawn.isNew {src : Source} {c : Catalog} (h : c.IsDrawn src)
    (fresh : src.IsFresh (c.drawn + 1)) : c.IsNew (src.id c.drawn) :=
  h.isNew_of_le (Nat.le_refl _) fresh

end Catalog

/-- What metadata there is can still be read behind a deed, and that of an editgroup that the deed
    makes, if it can be read: an editgroup that is closed keeps its own. -/
theorem Store.Change.legible {s t : Store} {k : Deed} (step : Change s k t)
    (legible : ∀ g ∈ s.editgroups, g.IsLegible) (new : ∀ g, k = .editgroup g → g.IsLegible) :
    ∀ g ∈ t.editgroups, g.IsLegible := by
  have closed : ∀ group status time, ∀ g ∈ (s.closed group status time).editgroups,
      g.IsLegible := by
    intro group status time g hg
    rcases mem_closed_editgroups.1 hg with ⟨old, -⟩ | ⟨g', old, -, rfl⟩
    · exact legible g old
    · exact legible g' old
  cases step with
  | editgroup g _ _ _ _ _ =>
    exact List.forall_mem_append.2 ⟨legible, List.forall_mem_singleton.2 (new g rfl)⟩
  | accept group closedAt _ _ _ => exact closed group .accepted closedAt
  | abandon group time _ => exact closed group .abandoned time
  | _ => exact legible

theorem Catalog.IsReady.leadsBy {src : Source} {c d : Catalog} {may : Deed → Prop}
    (ready : c.IsReady src) (h : c.LeadsBy src may d)
    (new : ∀ g, may (.editgroup g) → g.IsLegible) : d.IsReady src where
  arises := ready.arises.becomes h.becomes
  isDrawn := h.isDrawn ready.isDrawn
  legible := h.invariant ready.arises
    (fun _ kind step legible => step.legible legible fun g same => new g (same ▸ kind))
    ready.legible

theorem Store.demand_bind_apply {β : Type} (condition : Store → Bool) (refusal : Refusal)
    (f : Unit → Write β) (src : Source) (c : Catalog) :
    (demand condition refusal >>= f) src c =
      if condition c.toStore then f () src c else (.error (.storage refusal), c) := by
  rw [Write.bind_apply, demand]
  split <;> rename_i h <;> split at h <;> simp_all

/-- If the write fails here it is told why, unless the source repeats itself. -/
def Write.ReportsAt {α : Type} (src : Source) (c : Catalog) (w : Write α) : Prop :=
  src.IsFresh (w src c).2.drawn → Reports (w src c).1

namespace Write.ReportsAt

variable {α β : Type} {src : Source} {c : Catalog}

theorem pure (a : α) : (pure a : Write α).ReportsAt src c := fun _ => .ok a

theorem alter (change : Store → Store) : (Store.alter change).ReportsAt src c := fun _ => .ok ()

theorem bind {w : Write α} {f : α → Write β} (h : w.ReportsAt src c)
    (h' : ∀ a d, w src c = (.ok a, d) → (f a).ReportsAt src d) : (w >>= f).ReportsAt src c := by
  intro fresh
  rw [Write.bind_apply] at fresh ⊢
  rcases hrun : w src c with ⟨err | a, d⟩ <;> rw [hrun] at fresh
  · have reports := h (by rw [hrun]; exact fresh)
    rw [hrun] at reports
    exact .error (reports err rfl)
  · exact h' a d hrun fresh

theorem look_bind {read : Store → Except CatalogError α} {f : α → Write β}
    (h : Reports (read c.toStore)) (h' : ∀ a, read c.toStore = .ok a → (f a).ReportsAt src c) :
    (Store.look read >>= f).ReportsAt src c := by
  refine bind (fun _ => h) fun a d hrun => ?_
  obtain ⟨hread, rfl⟩ := Store.look_eq_ok.1 hrun
  exact h' a hread

/-- What the store demands is there, as long as identifiers are new. -/
theorem demand_bind {condition : Store → Bool} {refusal : Refusal} {f : Unit → Write β}
    (h : src.IsFresh c.drawn → condition c.toStore = true) (h' : (f ()).ReportsAt src c) :
    (Store.demand condition refusal >>= f).ReportsAt src c := by
  intro fresh
  rw [Store.demand_bind_apply] at fresh ⊢
  split at fresh <;> rename_i holds
  · rw [if_pos holds]
    exact h' fresh
  · exact absurd (h fresh) holds

theorem drawId_bind {kind : IdentKind} {f : Ident kind → Write β}
    (h : (f ⟨src.id c.drawn⟩).ReportsAt src { c with drawn := c.drawn + 1 }) :
    (Store.drawId kind >>= f).ReportsAt src c := h

theorem drawTime_bind {f : Instant → Write β}
    (h : (f (src.time c.ticks)).ReportsAt src { c with ticks := c.ticks + 1 }) :
    (Store.drawTime >>= f).ReportsAt src c := h

theorem run {w : Write α} (h : w.ReportsAt src c) (fresh : src.IsFresh (w.run src c).2.drawn) :
    Reports (w.run src c).1 := by
  unfold Write.ReportsAt at h
  unfold Write.run at fresh ⊢
  rcases hrun : w src c with ⟨err | a, d⟩ <;> rw [hrun] at h fresh <;> exact h fresh

end Write.ReportsAt

namespace Store

variable {src : Source} {c : Catalog}

/-! ### Rows -/

/-- A name that is accepted is that of nobody. -/
theorem isNone_of_checkUsername {s : Store} {username : String}
    (name : s.checkUsername username = .ok ()) : (s.editorNamed? username).isNone = true := by
  unfold checkUsername at name
  split at name
  · cases name
  · split at name
    · cases name
    · simp_all

theorem createEditor_reportsAt (ready : c.IsReady src) (username : String) (isAdmin isBot : Bool) :
    (createEditor username isAdmin isBot).ReportsAt src c := by
  refine .look_bind (checkUsername_reports _ _) fun _ name => .drawId_bind <| .drawTime_bind <|
    .bind (.demand_bind (fun fresh => ?_) (.alter _)) fun _ _ _ => .pure _
  exact Bool.and_eq_true_iff.2 ⟨(ready.isDrawn.isNew fresh).editor, isNone_of_checkUsername name⟩

theorem openWith_reportsAt (ready : c.IsReady src) (settings : Settings) :
    (Handle.openWith settings).ReportsAt src c := by
  refine .bind (.look_bind (.ok _) fun found _ => ?_) fun _ _ _ => .pure _
  cases found with
  | some e => exact .pure e
  | none => exact createEditor_reportsAt ready _ true false

theorem createEditgroup_reportsAt (ready : c.IsReady src) (editor : EditorId)
    (description : Option String) (extra : Extra) :
    (createEditgroup editor description extra).ReportsAt src c := by
  refine .look_bind (.found _ _) fun e known => .drawId_bind <| .drawTime_bind <|
    .bind (.demand_bind (fun fresh => (ready.isDrawn.isNew fresh).editgroup) <|
      .demand_bind (fun _ => ?_) (.alter _)) fun _ _ _ => .pure _
  exact Option.isSome_iff_exists.2 ⟨e, found_eq_ok.1 known⟩

theorem activeEditgroup_reportsAt (ready : c.IsReady src) (editor : EditorId) :
    (activeEditgroup editor).ReportsAt src c := by
  refine .look_bind (.found _ _) fun e _ =>
    .look_bind (openEditgroupOf_reports ready.legible e) fun found _ => ?_
  cases found with
  | some g => exact .pure g
  | none =>
    exact .bind (createEditgroup_reportsAt ready _ _ _) fun _ _ _ => .bind (.alter _) fun _ _ _ =>
      .pure _

theorem createRevision_reportsAt (ready : c.IsReady src) (body : EntityBody) :
    (createRevision body).ReportsAt src c :=
  .look_bind (checkBody_reports _ _) fun _ _ => .drawId_bind <| .drawTime_bind <|
    .bind (.demand_bind (fun fresh => (ready.isDrawn.isNew fresh).revision) (.alter _))
      fun _ _ _ => .pure _

theorem removeEdit_reportsAt (ready : c.IsReady src) (id : EditId) :
    (removeEdit id).ReportsAt src c :=
  .look_bind (.found _ _) fun _ _ => .look_bind (requireOpen_reports ready.legible _) fun _ _ =>
    .bind (.alter _) fun _ _ _ => .pure _

theorem abandon_reportsAt (ready : c.IsReady src) (group : EditgroupId) :
    (abandon group).ReportsAt src c :=
  .look_bind (requireOpen_reports ready.legible group) fun _ _ => .drawTime_bind (.alter _)

/-- An editgroup that is not accepted cannot be worked on, or has an edit that does not take
    effect. -/
theorem Arises.acceptRefusal?_reports {s : Store} (arises : s.Arises)
    (legible : ∀ g ∈ s.editgroups, g.IsLegible) {group : EditgroupId} {err : CatalogError}
    (h : s.acceptRefusal? group = some err) : err.IsReported := by
  unfold acceptRefusal? at h
  cases writable : s.requireOpen group with
  | error err' =>
    rw [writable] at h
    obtain rfl := Option.some.inj h
    exact requireOpen_reports legible group _ writable
  | ok header =>
    rw [writable] at h
    rcases firstRefusal?_cases arises.keyed (arises.grounds_inApplicationOrder group)
      (arises.keyed.inApplicationOrder_nodup group) with
      ⟨none, -⟩ | ⟨err', done, e, rest, first, -, -, -, refused⟩
    · cases h.symm.trans none
    · obtain rfl := Option.some.inj (h.symm.trans first)
      exact refused.isReported

theorem accept_reportsAt (ready : c.IsReady src) (group : EditgroupId) :
    (accept group).ReportsAt src c := by
  obtain ⟨d, performed⟩ := ready.arises.accept_eq src group
  intro _
  rw [performed]
  cases h : c.acceptRefusal? group with
  | none => exact .ok _
  | some err => exact .error (ready.arises.acceptRefusal?_reports ready.legible h)

/-! ### Edits -/

theorem Grounds.demanded {s : Store} {e : Edit} (grounds : s.Grounds e) :
    ((s.editgroupRow? e.editgroup).isSome && (s.identity? e.ident).isSome
      && holds s.revisionRow? e.previousRevision && holds s.identity? e.previousRedirect
      && holds s.revisionRow? e.action.revision? && holds s.identity? e.action.target?) = true := by
  obtain ⟨g, hg, hid, -⟩ := grounds.editgroup
  have editgroup : (s.editgroupRow? e.editgroup).isSome = true := find?_isSome_iff.2 ⟨g, hg, hid⟩
  have previous : holds s.revisionRow? e.previousRevision = true := by
    refine holds_iff.2 fun rev hrev => ?_
    obtain ⟨kind, there⟩ := grounds.previous rev hrev
    exact there.isSome
  have previousRedirect : holds s.identity? e.previousRedirect = true :=
    holds_iff.2 fun target htarget => (grounds.previousRedirect target htarget).isSome
  have revision : holds s.revisionRow? e.action.revision? = true :=
    holds_iff.2 fun rev hrev => (grounds.result.revision rev hrev).isSome
  have target : holds s.identity? e.action.target? = true :=
    holds_iff.2 fun target htarget => (grounds.result.redirect target htarget).isSome
  simp only [editgroup, grounds.ident.isSome, previous, previousRedirect, revision, target,
    Bool.and_self]

theorem insertEdit_reportsAt {e : Edit}
    (may : src.IsFresh c.drawn → c.MayStage e ∧ c.Grounds e) : (insertEdit e).ReportsAt src c := by
  refine .demand_bind (fun fresh => ?_) (.demand_bind (fun fresh => (may fresh).2.demanded)
    (.alter _))
  obtain ⟨⟨-, new, alone⟩, -⟩ := may fresh
  exact Bool.and_eq_true_iff.2 ⟨find?_isNone_iff.2 new, pendingEdit?_isNone_iff.2 alone⟩

theorem allocate_reportsAt (ready : c.IsReady src) (kind : EntityKind) :
    (allocate kind).ReportsAt src c :=
  .drawId_bind <| .drawTime_bind <| .bind (.demand_bind (fun _ => rfl) <|
    .demand_bind (fun fresh => (ready.isDrawn.isNew fresh).identity) <|
      .demand_bind (fun _ => rfl) (.alter _)) fun _ _ _ => .pure _

/-- What other edits there are does not matter to what an edit refers to. -/
theorem keeps_edits {s : Store} {edits : List Edit} : Keeps { s with edits } s :=
  ⟨fun g hg => ⟨g, hg, rfl, rfl⟩, fun _ hr => hr, fun x hx => ⟨x, hx, rfl, rfl⟩⟩

theorem stageEdit_new_reportsAt (ready : c.IsReady src) (group : EditgroupId) (kind : EntityKind)
    (previous : Option RevisionId) (action : EditAction) :
    (stageEdit group (.new kind) previous action).ReportsAt src c := by
  refine .look_bind (requireOpen_reports ready.legible group) fun header writable =>
    .look_bind (newBase_reports _ _ _) fun base hbase =>
      .look_bind (checkAction_reports _ _ _ _) fun _ checked =>
        .look_bind (checkPrevious_reports _ _) fun _ _ => ?_
  obtain ⟨-, -, rfl⟩ := newBase_eq_ok.1 hbase
  refine .bind (allocate_reportsAt ready kind) fun id d allocated => ?_
  obtain ⟨unknown, -, rfl⟩ := allocate_eq_ok.1 allocated
  refine .drawId_bind <| .drawTime_bind <| .bind (insertEdit_reportsAt fun fresh => ?_)
    fun _ _ _ => .pure _
  have new := find?_isNone_iff.1 (ready.isDrawn.isNew_of_le (Nat.le_succ _) fresh).edit
  have alone : ∀ f ∈ c.edits, f.editgroup = group → f.ident ≠ id := by
    intro f hf _ same
    obtain ⟨y, hy, hid⟩ := ready.arises.knows_ident hf
    exact unknown y hy (hid.trans same)
  have may := ready.arises.keyed.mayStageNew writable hbase checked unknown new alone
    (src.time c.ticks) (src.time (c.ticks + 1))
  exact ⟨{ may.toMayStage with }, keeps_edits.grounds may.grounds⟩

theorem stageEdit_existing_reportsAt (ready : c.IsReady src) (group : EditgroupId) (id : EntityId)
    (previous : Option RevisionId) (action : EditAction) :
    (stageEdit group (.existing id) previous action).ReportsAt src c := by
  refine .look_bind (requireOpen_reports ready.legible group) fun header writable =>
    .look_bind (existingBase_reports _ _ _ _) fun base hbase =>
      .look_bind (checkAction_reports _ _ _ _) fun _ checked =>
        .look_bind (checkPrevious_reports _ _) fun _ based => ?_
  rw [ident_of_existingBase hbase]
  refine .bind (.pure id) fun ident d hident => ?_
  obtain ⟨rfl, rfl⟩ := Write.pure_eq_ok.1 hident
  refine .drawId_bind <| .drawTime_bind <| .bind (insertEdit_reportsAt fun fresh => ?_)
    fun _ _ _ => .pure _
  have new := find?_isNone_iff.1 (ready.isDrawn.isNew fresh).edit
  obtain ⟨x, -, may⟩ := ready.arises.keyed.mayStageOn writable hbase checked based new
    (src.time c.ticks)
  exact ⟨may.toMayStage, may.grounds ready.arises.grounded⟩

theorem stageEdit_reportsAt (ready : c.IsReady src) (group : EditgroupId) (target : EditTarget)
    (previous : Option RevisionId) (action : EditAction) :
    (stageEdit group target previous action).ReportsAt src c := by
  cases target with
  | new kind => exact stageEdit_new_reportsAt ready group kind previous action
  | existing id => exact stageEdit_existing_reportsAt ready group id previous action

/-! ### Entities -/

theorem stageNew_reportsAt (ready : c.IsReady src) (group : EditgroupId) (body : EntityBody) :
    (stageNew group body).ReportsAt src c := by
  refine .bind (createRevision_reportsAt ready body) fun _ d created => ?_
  have revised : c.LeadsBy src (Deed.AddsIn group) d :=
    .of_does (.revision _) (createRevision_does created)
  exact stageEdit_reportsAt (ready.leadsBy revised (by grind)) group _ _ _

theorem createEntity_reportsAt (ready : c.IsReady src) (group : EditgroupId) (body : EntityBody) :
    (createEntity group body).ReportsAt src c := by
  refine .bind ?_ fun _ d worked => ?_
  · cases body with
    | release r =>
      simp only [withWork]
      split
      · exact .pure _
      · exact .bind (stageNew_reportsAt ready group _) fun _ _ _ => .pure _
    | _ => exact .pure _
  · have added := (withWork_doesOnly group body).leadsBy ready.arises worked
    exact stageNew_reportsAt (ready.leadsBy added (by grind)) group _

/-- The editgroup is made without metadata. -/
theorem legible_of_beginsIn {group : EditgroupId} {g : EditgroupRow}
    (h : Deed.BeginsIn group (.editgroup g)) : g.IsLegible := by
  cases h with
  | editgroup _ plain _ =>
    intro text htext
    cases plain.symm.trans htext
  | adds h => cases h

theorem stageAlone_reportsAt (ready : c.IsReady src) (editor : EditorId) (body : EntityBody) :
    (stageAlone editor body).ReportsAt src c := by
  refine .bind (createEditgroup_reportsAt ready _ _ _) fun g d created =>
    .bind (createEntity_reportsAt ?_ g body) fun _ _ _ => .pure _
  have made : c.LeadsBy src (Deed.BeginsIn g) d :=
    .of_does (.editgroup _ rfl rfl) (createEditgroup_does created)
  exact ready.leadsBy made fun _ => legible_of_beginsIn

/-! ### Operations -/

section Operations
variable {src : Source} {c : Catalog}

theorem autoaccept_reports (ready : c.IsReady src) (editor : EditorId) (body : EntityBody)
    (fresh : src.IsFresh (autoaccept editor body src c).2.drawn) :
    Reports (autoaccept editor body src c).1 := by
  have reports := (stageAlone_reportsAt ready editor body).run
  unfold autoaccept at fresh ⊢
  rcases hstaged : (stageAlone editor body).run src c with ⟨err | ⟨group, edit⟩, d⟩
  · simp only [hstaged] at fresh reports ⊢
    exact .error (reports fresh err rfl)
  have begins := (ready.arises.stageAlone_leadsBy (Write.run_eq_ok.1 hstaged)).2
  have there : d.IsReady src := ready.leadsBy begins fun _ => legible_of_beginsIn
  have reports := (accept_reportsAt there group).run
  rcases haccepted : (accept group).run src d with ⟨err | entry, d'⟩
  swap
  · simp only [haccepted]
    exact .ok _
  -- the tables are as they were before the acceptance, so that the editgroup can be given up
  have tried := (accept_doesOnly group).run src there.arises
  rw [haccepted] at tried
  have back : d'.IsReady src := there.leadsBy tried (by grind)
  have further := (abandon_drawsOn group).run src d'
  have reports' := (abandon_reportsAt back group).run
  rcases habandoned : (abandon group).run src d' with ⟨err' | _, d''⟩ <;>
    simp only [hstaged, haccepted, habandoned] at fresh reports reports' further ⊢
  · exact .error (reports' fresh err' rfl)
  · exact .error (reports (fresh.mono further.drawn) err rfl)

theorem after_reports {α : Type} (ready : c.IsReady src) (op : Operation α)
    (fresh : src.IsFresh (op.after src c).drawn) : Reports (op.answer src c) := by
  cases op with
  | openCatalog settings => exact (openWith_reportsAt ready settings).run fresh
  | createEditor username => exact (createEditor_reportsAt ready username false false).run fresh
  | activeEditgroup editor => exact (activeEditgroup_reportsAt ready editor).run fresh
  | createEditgroup editor description extra =>
    exact (createEditgroup_reportsAt ready editor description extra).run fresh
  | createRevision body => exact (createRevision_reportsAt ready body).run fresh
  | stageEdit group target previous action =>
    exact (stageEdit_reportsAt ready group target previous action).run fresh
  | removeEdit id => exact (removeEdit_reportsAt ready id).run fresh
  | accept group => exact (accept_reportsAt ready group).run fresh
  | abandon group => exact (abandon_reportsAt ready group).run fresh
  | createEntity group body => exact (createEntity_reportsAt ready group body).run fresh
  | updateEntity group id body =>
    refine Write.ReportsAt.run (.look_bind (.found _ _) fun x _ => ?_) fresh
    refine .bind (createRevision_reportsAt ready body) fun _ d created => ?_
    have revised : c.LeadsBy src (Deed.DraftsIn group) d :=
      .of_does (.revision _) (createRevision_does created)
    exact stageEdit_reportsAt (ready.leadsBy revised (by grind)) group _ _ _
  | deleteEntity group id =>
    refine Write.ReportsAt.run (.look_bind (.found _ _) fun x _ => ?_) fresh
    exact stageEdit_reportsAt ready group _ _ _
  | redirectEntity group id target =>
    refine Write.ReportsAt.run (.look_bind (.found _ _) fun x _ => ?_) fresh
    exact stageEdit_reportsAt ready group _ _ _
  | autoaccept editor body => exact autoaccept_reports ready editor body fresh

end Operations

end Store

/-! ### All requests -/

/-- The identifiers that are counted do not repeat themselves as long as there are any. -/
theorem Source.counting_isFresh {count : Nat} (few : count ≤ 2 ^ 128) :
    Source.counting.IsFresh count := by
  intro i j hi hj same
  have numbers : (BitVec.ofNat 128 i).toNat = (BitVec.ofNat 128 j).toNat :=
    congrArg (fun u : Uuid => u.bits.toNat) same
  rwa [BitVec.toNat_ofNat, BitVec.toNat_ofNat, Nat.mod_eq_of_lt (by omega),
    Nat.mod_eq_of_lt (by omega)] at numbers

namespace Catalog

/-- The store never has to refuse anything. As long as the stored texts can be decoded and the
    source does not repeat itself, whatever is asked of a catalog, and whatever is to be done with
    it, either succeeds or fails for a reason that is told in terms of the request: no row is ever
    to be inserted or changed that refers to one that is not there, that brings a key or another
    unique value which is there already, or that points at two things. -/
theorem Reachable.store_never_refuses {src : Source} {c : Catalog} (h : Reachable src c)
    (decodes : c.Decodes) :
    (∀ {α : Type} (op : Operation α), src.IsFresh (op.after src c).drawn →
      ∀ err, op.answer src c = .error err → err.IsReported) ∧
    ∀ {α : Type} (q : Query α) (handle : Handle),
      ∀ err, q.answer handle c.toStore = .error err → err.IsReported := by
  have ready : c.IsReady src := ⟨h.arises, h.isDrawn, decodes.editgroups⟩
  constructor
  · intro α op fresh
    exact Store.after_reports ready op fresh
  · intro α q handle
    exact Store.answer_reports decodes q handle

theorem drafted_decodes : drafted.Decodes := by
  have none : ∀ g ∈ drafted.editgroups, g.extra = none := by decide +kernel
  have texts : ∀ r ∈ drafted.revisions, r.bodyText = (EntityBody.work {}).canonicalText := by
    decide +kernel
  have shallow : (EntityBody.work {}).nesting ≤ Json.maxDepth := by decide +kernel
  constructor
  · intro g hg text htext
    cases htext.symm.trans (none g hg)
  · intro r hr
    refine ⟨(EntityBody.work {}).reread, ?_⟩
    rw [texts r hr, decodeStored, EntityBody.ofText_canonicalText shallow]

/-- The name of an editor is asked for again, an entity is to be edited again in the editgroup that
    has an edit of it, and an entity is to be shown of which nothing was accepted. -/
theorem drafted_store_never_refuses :
    (∃ err, (Operation.createEditor "someone").answer .counting drafted = .error err ∧
        err.IsReported) ∧
      (∃ err, (Operation.deleteEntity (.nth 5) (.nth 3)).answer .counting drafted = .error err ∧
        err.IsReported) ∧
      ∃ err, (Query.entity (.nth 7) {}).answer ⟨{}, .nth 0⟩ drafted.toStore = .error err ∧
        err.IsReported := by
  have reachable : Reachable .counting drafted := Leads.go _ (leads_play ..)
  obtain ⟨performs, answers⟩ := reachable.store_never_refuses drafted_decodes
  have taken : (Operation.createEditor "someone").answer .counting drafted =
      .error (.validation [⟨"editor", "username", .usernameTaken "someone"⟩]) := by decide +kernel
  have twice : (Operation.deleteEntity (.nth 5) (.nth 3)).answer .counting drafted =
      .error (.editConflict (.nth 5) (.nth 3)) := by decide +kernel
  have hidden : (Query.entity (.nth 7) {}).answer ⟨{}, .nth 0⟩ drafted.toStore =
      .error (.notFound (.identity (.nth 7))) := by decide +kernel
  refine ⟨⟨_, taken, performs _ (Source.counting_isFresh ?_) _ taken⟩,
    ⟨_, twice, performs _ (Source.counting_isFresh ?_) _ twice⟩, _, hidden, answers _ _ _ hidden⟩
  all_goals decide +kernel

end Catalog

end Biblio
