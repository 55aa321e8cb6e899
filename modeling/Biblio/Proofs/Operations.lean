import Biblio.Catalog.Operation
import Biblio.Proofs.Deeds

/-! What operations do to the tables of a catalog.

    For each write the deeds are named that it may do, and for each operation. What succeeds does no
    others, and what fails does none. So the tables of every catalog that operations lead to arise
    from empty ones. -/

namespace Biblio

namespace Deed

/-- A revision is made, or an edit of a new identity is staged in this editgroup. -/
@[grind cases]
inductive AddsIn (group : EditgroupId) : Deed → Prop where
  | revision (r : RevisionRow) : AddsIn group (.revision r)
  | stageNew (x : Identity) (e : Edit) (here : e.editgroup = group) : AddsIn group (.stageNew x e)

/-- A revision is made, or an edit of an identity that is there is staged in this editgroup. -/
@[grind cases]
inductive RevisesIn (group : EditgroupId) : Deed → Prop where
  | revision (r : RevisionRow) : RevisesIn group (.revision r)
  | stage (x : Identity) (e : Edit) (here : e.editgroup = group) : RevisesIn group (.stage x e)

/-- A revision is made, or an edit is staged that is based on where its identity points and does not
    redirect it. -/
@[grind cases]
inductive DraftsIn (group : EditgroupId) : Deed → Prop where
  | revision (r : RevisionRow) : DraftsIn group (.revision r)
  | stage (x : Identity) (e : Edit) (here : e.editgroup = group)
    (current : e.previousRevision = x.revision) (plain : e.action.isRedirect = false) :
    DraftsIn group (.stage x e)

/-- This editgroup is made, without metadata, or something new is added in it. -/
@[grind cases]
inductive BeginsIn (group : EditgroupId) : Deed → Prop where
  | editgroup (g : EditgroupRow) (plain : g.extra = none) (here : g.id = group) :
    BeginsIn group (.editgroup g)
  | adds {k : Deed} (h : k.AddsIn group) : BeginsIn group k

end Deed

/-- The deeds that an operation may do where the tables are these. -/
def Operation.May {α : Type} (op : Operation α) (s : Store) (k : Deed) : Prop :=
  match op with
  | openCatalog _ | createEditor _ => ∃ e, k = .editor e
  | activeEditgroup _ => (∃ g, k = .editgroup g) ∨ ∃ g, k = .activate g
  | createEditgroup _ _ _ => ∃ g, k = .editgroup g
  | createRevision _ => ∃ r, k = .revision r
  | stageEdit group (.new _) _ _ | createEntity group _ => k.AddsIn group
  | stageEdit group (.existing _) _ _ | redirectEntity group _ _ => k.RevisesIn group
  | updateEntity group _ _ | deleteEntity group _ => k.DraftsIn group
  | removeEdit id => ∃ e, s.edit? id = some e ∧ k = .remove e
  | accept group => k = .accept group
  | abandon group => k = .abandon group
  | autoaccept _ _ => ∃ group, (∀ g ∈ s.editgroups, g.id ≠ group) ∧
    (k.BeginsIn group ∨ k = .accept group ∨ k = .abandon group)

namespace Store

/-! ### What is drawn -/

theorem createEditor_drawsOn (username : String) (isAdmin isBot : Bool) :
    (createEditor username isAdmin isBot).DrawsOn :=
  .bind (.look _) fun _ => .bind (.drawId _) fun _ => .bind .drawTime fun _ =>
    .bind (.bind (.demand _ _) fun _ => .alter _) fun _ => .pure _

theorem createEditgroup_drawsOn (editor : EditorId) (description : Option String) (extra : Extra) :
    (createEditgroup editor description extra).DrawsOn :=
  .bind (.look _) fun _ => .bind (.drawId _) fun _ => .bind .drawTime fun _ =>
    .bind (.bind (.demand _ _) fun _ => .bind (.demand _ _) fun _ => .alter _) fun _ => .pure _

theorem createRevision_drawsOn (body : EntityBody) : (createRevision body).DrawsOn :=
  .bind (.look _) fun _ => .bind (.drawId _) fun _ => .bind .drawTime fun _ =>
    .bind (.bind (.demand _ _) fun _ => .alter _) fun _ => .pure _

theorem allocate_drawsOn (kind : EntityKind) : (allocate kind).DrawsOn :=
  .bind (.drawId _) fun _ => .bind .drawTime fun _ => .bind (.bind (.demand _ _) fun _ =>
    .bind (.demand _ _) fun _ => .bind (.demand _ _) fun _ => .alter _) fun _ => .pure _

theorem stageEdit_drawsOn (group : EditgroupId) (target : EditTarget)
    (previous : Option RevisionId) (action : EditAction) :
    (stageEdit group target previous action).DrawsOn := by
  have insert : ∀ make : EditId → Instant → Edit, (do
      let id ← drawId .edit
      let time ← drawTime
      insertEdit (make id time)
      return make id time : Write Edit).DrawsOn := fun make =>
    .bind (.drawId _) fun _ => .bind .drawTime fun _ => .bind (.bind (.demand _ _) fun _ =>
      .bind (.demand _ _) fun _ => .alter _) fun _ => .pure _
  refine .bind (.look _) fun _ => .bind (.look _) fun base => .bind (.look _) fun _ =>
    .bind (.look _) fun _ => ?_
  cases base.ident with
  | some id => exact .bind (.pure id) fun _ => insert _
  | none => exact .bind (allocate_drawsOn _) fun _ => insert _

theorem removeEdit_drawsOn (id : EditId) : (removeEdit id).DrawsOn :=
  .bind (.look _) fun _ => .bind (.look _) fun _ => .bind (.alter _) fun _ => .pure _

theorem applyEdit_drawsOn (e : Edit) : (applyEdit e).DrawsOn := by
  refine .bind (.look _) fun _ => .bind (.look _) fun x => ?_
  cases x.staleness? e.previousRevision e.previousRedirect with
  | some how => exact .throw _
  | none => exact .bind (.demand _ _) fun _ => .bind (.demand _ _) fun _ => .alter _

theorem accept_drawsOn (group : EditgroupId) : (accept group).DrawsOn :=
  .bind (.look _) fun _ => .bind (.look _) fun _ => .bind (.forM applyEdit_drawsOn _) fun _ =>
    .bind .drawTime fun _ => .bind (.alter _) fun _ => .bind (.look _) fun _ =>
      .bind .drawTime fun _ => .bind (.bind (.demand _ _) fun _ => .bind (.demand _ _) fun _ =>
        .alter _) fun _ => .pure _

theorem abandon_drawsOn (group : EditgroupId) : (abandon group).DrawsOn :=
  .bind (.look _) fun _ => .bind .drawTime fun _ => .alter _

/-! ### The deeds of writes -/

section Writes
variable {may : Deed → Prop}

theorem createEditor_doesOnly (allowed : ∀ e, may (.editor e)) (username : String)
    (isAdmin isBot : Bool) : (createEditor username isAdmin isBot).DoesOnly may := by
  refine .of_does (createEditor_drawsOn username isAdmin isBot) ?_
  intro src c d e _ h
  obtain ⟨name, new, he, rfl⟩ := createEditor_eq_ok.1 h
  subst he
  exact ⟨_, allowed _, {
    drawn := Nat.le_succ _
    ticks := Nat.le_succ _
    change := .editor _ name rfl new
    gave := List.forall_mem_singleton.2 ⟨c.drawn, Nat.lt_succ_self _, rfl⟩
    time := fun _ h => nomatch h }⟩

theorem openWith_doesOnly (allowed : ∀ e, may (.editor e)) (settings : Settings) :
    (Handle.openWith settings).DoesOnly may := by
  refine .bind (.bind (.look _) fun found => ?_) fun _ => .pure _
  cases found with
  | some e => exact .pure e
  | none => exact createEditor_doesOnly allowed _ true false

theorem createEditgroup_does {src : Source} {c d : Catalog} {editor : EditorId}
    {description : Option String} {extra : Extra} {group : EditgroupId}
    (h : createEditgroup editor description extra src c = (.ok group, d)) :
    c.Does src (.editgroup (newEditgroup editor description extra group (src.time c.ticks))) d := by
  obtain ⟨known, new, rfl, rfl⟩ := createEditgroup_eq_ok.1 h
  exact {
    drawn := Nat.le_succ _
    ticks := Nat.le_succ _
    change := .editgroup _ rfl rfl known new ⟨extra, rfl⟩
    gave := List.forall_mem_singleton.2 ⟨c.drawn, Nat.lt_succ_self _, rfl⟩
    time := fun _ h => ⟨(Option.some.inj h).symm, Nat.lt_succ_self _⟩ }

theorem createEditgroup_doesOnly (allowed : ∀ g, may (.editgroup g)) (editor : EditorId)
    (description : Option String) (extra : Extra) :
    (createEditgroup editor description extra).DoesOnly may :=
  .of_does (createEditgroup_drawsOn editor description extra) fun _ h =>
    ⟨_, allowed _, createEditgroup_does h⟩

/-- To take up the new editgroup is a deed of its own. -/
theorem activeEditgroup_doesOnly (made : ∀ g, may (.editgroup g)) (taken : ∀ g, may (.activate g))
    (editor : EditorId) : (activeEditgroup editor).DoesOnly may where
  drawsOn := by
    refine .bind (.look _) fun e => .bind (.look _) fun found => ?_
    cases found with
    | some g => exact .pure g
    | none =>
      exact .bind (createEditgroup_drawsOn _ _ _) fun _ => .bind (.alter _) fun _ => .pure _
  leadsBy src c d group arises h := by
    obtain ⟨e, -, h⟩ := look_bind_eq_ok.1 h
    obtain ⟨found, -, h⟩ := look_bind_eq_ok.1 h
    cases found with
    | some g =>
      obtain ⟨-, rfl⟩ := Write.pure_eq_ok.1 h
      exact .refl
    | none =>
      obtain ⟨g, _, created, h⟩ := Write.bind_eq_ok.1 h
      obtain ⟨_, _, set, h⟩ := Write.bind_eq_ok.1 h
      obtain ⟨-, rfl⟩ := Write.pure_eq_ok.1 h
      obtain rfl := alter_eq_ok.1 set
      have founded : c.LeadsBy src may _ := .of_does (made _) (createEditgroup_does created)
      refine founded.tail (.deed (taken (newEditgroup editor none .empty g (src.time c.ticks))) ?_)
      obtain ⟨-, -, -, rfl⟩ := createEditgroup_eq_ok.1 created
      exact .of_change ⟨Nat.le_refl _, Nat.le_refl _⟩
        (.activate _ (List.mem_append_right _ (List.mem_singleton_self _)) rfl) rfl rfl

theorem createRevision_does {src : Source} {c d : Catalog} {body : EntityBody} {rev : RevisionId}
    (h : createRevision body src c = (.ok rev, d)) :
    c.Does src (.revision (.ofBody body rev (src.time c.ticks))) d := by
  obtain ⟨valid, new, rfl, rfl⟩ := createRevision_eq_ok.1 h
  exact {
    drawn := Nat.le_succ _
    ticks := Nat.le_succ _
    change := .revision body _ (src.time c.ticks) valid new
    gave := List.forall_mem_singleton.2 ⟨c.drawn, Nat.lt_succ_self _, rfl⟩
    time := fun _ h => nomatch h }

theorem createRevision_doesOnly (allowed : ∀ r, may (.revision r)) (body : EntityBody) :
    (createRevision body).DoesOnly may :=
  .of_does (createRevision_drawsOn body) fun _ h => ⟨_, allowed _, createRevision_does h⟩

theorem accept_doesOnly (group : EditgroupId) : (accept group).DoesOnly (· = .accept group) := by
  refine .of_does (accept_drawsOn group) ?_
  intro src c d entry arises h
  rcases arises.accept_cases src group with ⟨ok, writable, takes⟩ | ⟨err, e, error, -⟩
  · obtain ⟨-, rfl⟩ := Prod.mk.inj (ok.symm.trans h)
    exact ⟨_, rfl, .of_change ⟨Nat.le_refl _, Nat.le_add_right _ _⟩
      (.accept group _ _ writable takes) rfl rfl⟩
  · cases error.symm.trans h

theorem abandon_doesOnly (group : EditgroupId) :
    (abandon group).DoesOnly (· = .abandon group) := by
  refine .of_does (abandon_drawsOn group) ?_
  intro src c d u arises h
  obtain ⟨writable, rfl⟩ := (abandon_eq_ok arises.keyed).1 h
  exact ⟨_, rfl, .of_change ⟨Nat.le_refl _, Nat.le_succ _⟩
    (.abandon group (src.time c.ticks) writable) rfl rfl⟩

end Writes

/-! ### The deeds of staging -/

section Staging
variable {src : Source} {c d : Catalog} {group : EditgroupId} {previous : Option RevisionId}
  {action : EditAction} {e : Edit}

theorem Keyed.stageEdit_new_does (keyed : c.Keyed) {kind : EntityKind}
    (h : stageEdit group (.new kind) previous action src c = (.ok e, d)) :
    e.editgroup = group ∧ ∃ x, c.Does src (.stageNew x e) d := by
  obtain ⟨rfl, -, -, x, ⟨hx, time, he⟩, may, rfl⟩ := stageEdit_new keyed h
  refine ⟨rfl, x, {
    drawn := Nat.le_add_right _ _
    ticks := Nat.le_add_right _ _
    change := .stageNew x e may
    gave := List.forall_mem_cons.2 ⟨?_, List.forall_mem_singleton.2 ?_⟩
    time := ?_ }⟩
  · exact hx ▸ ⟨c.drawn, Nat.lt_add_of_pos_right Nat.two_pos, rfl⟩
  · exact he ▸ ⟨c.drawn + 1, Nat.lt_succ_self _, rfl⟩
  · rintro _ ⟨⟩
    exact ⟨time, Nat.lt_add_of_pos_right Nat.two_pos⟩

theorem Keyed.stageEdit_existing_does (keyed : c.Keyed) {id : EntityId}
    (h : stageEdit group (.existing id) previous action src c = (.ok e, d)) :
    e.editgroup = group ∧ e.previousRevision = previous ∧ e.action = action ∧
      ∃ x ∈ c.identities, x.id = id ∧ c.Does src (.stage x e) d := by
  obtain ⟨hgroup, hprevious, haction, x, ⟨hx, he⟩, may, rfl⟩ := stageEdit_existing keyed h
  exact ⟨hgroup, hprevious, haction, x, may.known, hx, {
    drawn := Nat.le_succ _
    ticks := Nat.le_succ _
    change := .stage x e may
    gave := List.forall_mem_singleton.2 (he ▸ ⟨c.drawn, Nat.lt_succ_self _, rfl⟩)
    time := fun _ h => nomatch h }⟩

variable (group previous action)

theorem stageEdit_new_doesOnly (kind : EntityKind) :
    (stageEdit group (.new kind) previous action).DoesOnly (Deed.AddsIn group) := by
  refine .of_does (stageEdit_drawsOn group (.new kind) previous action) fun arises h => ?_
  obtain ⟨here, x, does⟩ := arises.keyed.stageEdit_new_does h
  exact ⟨_, .stageNew x _ here, does⟩

theorem stageEdit_existing_doesOnly (id : EntityId) :
    (stageEdit group (.existing id) previous action).DoesOnly (Deed.RevisesIn group) := by
  refine .of_does (stageEdit_drawsOn group (.existing id) previous action) fun arises h => ?_
  obtain ⟨here, -, -, x, -, -, does⟩ := arises.keyed.stageEdit_existing_does h
  exact ⟨_, .stage x _ here, does⟩

theorem stageNew_doesOnly (body : EntityBody) :
    (stageNew group body).DoesOnly (Deed.AddsIn group) :=
  .bind (createRevision_doesOnly .revision body) fun _ => stageEdit_new_doesOnly group _ _ _

theorem withWork_doesOnly (body : EntityBody) :
    (withWork group body).DoesOnly (Deed.AddsIn group) := by
  cases body with
  | release r =>
    simp only [withWork]
    split
    · exact .pure _
    · exact .bind (stageNew_doesOnly group _) fun _ => .pure _
  | _ => exact .pure _

theorem createEntity_doesOnly (body : EntityBody) :
    (createEntity group body).DoesOnly (Deed.AddsIn group) :=
  .bind (withWork_doesOnly group body) fun _ => stageNew_doesOnly group _

variable {action} in
/-- An edit that is staged where the identity has its revision for a base. -/
theorem Arises.stageEdit_drafts (arises : c.Arises) {id : EntityId} {x : Identity}
    (hx : c.getIdentity id = .ok x) (plain : action.isRedirect = false)
    (h : stageEdit group (.existing id) x.revision action src c = (.ok e, d)) :
    c.LeadsBy src (Deed.DraftsIn group) d := by
  obtain ⟨known, rfl⟩ := arises.keyed.getIdentity_eq_ok.1 hx
  obtain ⟨here, current, rfl, y, hy, hid, does⟩ := arises.keyed.stageEdit_existing_does h
  obtain rfl := arises.keyed.identity_unique hy known hid
  exact .of_does (.stage y e here current plain) does

/-- The identity is as it was when the edit is staged, although the revision is made before. -/
theorem updateEntity_doesOnly (id : EntityId) (body : EntityBody) :
    (updateEntity group id body).DoesOnly (Deed.DraftsIn group) where
  drawsOn := .bind (.look _) fun _ => .bind (createRevision_drawsOn body) fun _ =>
    stageEdit_drawsOn group _ _ _
  leadsBy src c d e arises h := by
    obtain ⟨x, hx, h⟩ := look_bind_eq_ok.1 h
    obtain ⟨rev, c', created, h⟩ := Write.bind_eq_ok.1 h
    have revised := createRevision_does created
    have there := revised.arises arises
    obtain ⟨-, -, -, rfl⟩ := createRevision_eq_ok.1 created
    exact .head (.deed (.revision _) revised) (there.stageEdit_drafts group hx rfl h)

theorem deleteEntity_doesOnly (id : EntityId) :
    (deleteEntity group id).DoesOnly (Deed.DraftsIn group) where
  drawsOn := .bind (.look _) fun _ => stageEdit_drawsOn group _ _ _
  leadsBy src c d e arises h := by
    obtain ⟨x, hx, h⟩ := look_bind_eq_ok.1 h
    exact arises.stageEdit_drafts group hx rfl h

end Staging

/-! ### The deeds of operations -/

section Operations
variable {α : Type} {src : Source} {c d : Catalog} {group : EditgroupId}

theorem stageAlone_drawsOn (editor : EditorId) (body : EntityBody) :
    (stageAlone editor body).DrawsOn :=
  .bind (createEditgroup_drawsOn _ _ _) fun _ => .bind (createEntity_doesOnly _ _).drawsOn fun _ =>
    .pure _

/-- An entity is staged on its own in a new editgroup. -/
theorem Arises.stageAlone_leadsBy (arises : c.Arises) {editor : EditorId} {body : EntityBody}
    {e : Edit} (h : stageAlone editor body src c = (.ok (group, e), d)) :
    (∀ g ∈ c.editgroups, g.id ≠ group) ∧ c.LeadsBy src (Deed.BeginsIn group) d := by
  obtain ⟨g, _, created, h⟩ := Write.bind_eq_ok.1 h
  obtain ⟨f, _, staged, h⟩ := Write.bind_eq_ok.1 h
  obtain ⟨heq, rfl⟩ := Write.pure_eq_ok.1 h
  obtain ⟨rfl, rfl⟩ := Prod.mk.inj heq
  have made : c.LeadsBy src (Deed.BeginsIn g) _ :=
    .of_does (.editgroup _ rfl rfl) (createEditgroup_does created)
  have there := arises.becomes made.becomes
  refine ⟨(createEditgroup_eq_ok.1 created).2.1, made.trans ?_⟩
  exact ((createEntity_doesOnly g body).leadsBy there staged).mono fun _ => .adds

/-- An entity is created and accepted, or nothing happens, or it is created in an editgroup that is
    not accepted. -/
theorem Arises.autoaccept_cases (arises : c.Arises) (src : Source) (editor : EditorId)
    (body : EntityBody) :
    (∃ (err : CatalogError) (d : Catalog), autoaccept editor body src c = (.error err, d) ∧
        d.toStore = c.toStore ∧ c.DrawsOn d) ∨
      ∃ (group : EditgroupId) (d : Catalog), (∀ g ∈ c.editgroups, g.id ≠ group) ∧
        c.LeadsBy src (Deed.BeginsIn group) d ∧
        ((∃ id entry, autoaccept editor body src c =
              (.ok (id, entry), d.accepting src group) ∧
            entry = ⟨d.nextSeq, group, src.time (d.ticks + 1)⟩ ∧
            d.LeadsBy src (· = .accept group) (d.accepting src group)) ∨
          ∃ (err : CatalogError) (t : Catalog), autoaccept editor body src c = (.error err, t) ∧
            d.LeadsBy src (· = .abandon group) t) := by
  unfold autoaccept
  have draws := (stageAlone_drawsOn editor body).run src c
  rcases (stageAlone editor body).run_cases src c with
    ⟨⟨group, e⟩, d, staged, ok⟩ | ⟨err, d, failed, same⟩
  swap
  · rw [failed] at draws
    exact .inl ⟨err, d, by rw [failed], same, draws⟩
  obtain ⟨new, begins⟩ := arises.stageAlone_leadsBy ok
  have there := arises.becomes begins.becomes
  refine .inr ⟨group, d, new, begins, ?_⟩
  rw [staged]
  have draws := (accept_drawsOn group).run src d
  rcases there.accept_cases src group with ⟨ok, -⟩ | ⟨err, t, error, -⟩
  · refine .inl ⟨e.ident, _, ?_, rfl, (accept_doesOnly group).leadsBy there ok⟩
    simp only [Write.run_eq_ok.2 ok]
  -- what the failed acceptance wrote is undone before the editgroup is abandoned
  · have failed : (accept group).run src d = (.error err, t.withStore d.toStore) := by
      simp only [Write.run, error]
    have still : (t.withStore d.toStore).Arises := there
    rw [failed] at draws
    have waits : d.LeadsBy src (· = .abandon group) (t.withStore d.toStore) := .of_same draws rfl
    have abandoned := (abandon_doesOnly group).run src still
    simp only [failed]
    rcases (abandon group).run_cases src (t.withStore d.toStore) with
      ⟨u, t', habandon, -⟩ | ⟨err', t', habandon, -⟩ <;> rw [habandon] at abandoned ⊢
    · exact .inr ⟨err, t', rfl, waits.trans abandoned⟩
    · exact .inr ⟨err', t', rfl, waits.trans abandoned⟩

/-- All that an operation does are the deeds that it may do. -/
theorem Arises.after_leadsBy (arises : c.Arises) (src : Source) (op : Operation α) :
    c.LeadsBy src (op.May c.toStore) (op.after src c) := by
  cases op with
  | openCatalog settings => exact (openWith_doesOnly (⟨·, rfl⟩) settings).run src arises
  | createEditor username =>
    exact (createEditor_doesOnly (⟨·, rfl⟩) username false false).run src arises
  | activeEditgroup editor =>
    exact (activeEditgroup_doesOnly (.inl ⟨·, rfl⟩) (.inr ⟨·, rfl⟩) editor).run src arises
  | createEditgroup editor description extra =>
    exact (createEditgroup_doesOnly (⟨·, rfl⟩) editor description extra).run src arises
  | createRevision body => exact (createRevision_doesOnly (⟨·, rfl⟩) body).run src arises
  | stageEdit group target previous action =>
    cases target with
    | new kind => exact (stageEdit_new_doesOnly group previous action kind).run src arises
    | existing id => exact (stageEdit_existing_doesOnly group previous action id).run src arises
  | removeEdit id =>
    refine (removeEdit_drawsOn id).run_leadsBy fun e d h => ?_
    obtain ⟨staged, rfl, writable, rfl⟩ := removeEdit_eq_ok arises.keyed h
    have found : c.edit? e.id = some e := (find?_eq_some_iff arises.keyed.edits).2 ⟨staged, rfl⟩
    exact .of_does ⟨e, found, rfl⟩
      (.of_change ⟨Nat.le_refl _, Nat.le_refl _⟩ (.remove e staged writable) rfl rfl)
  | accept group => exact (accept_doesOnly group).run src arises
  | abandon group => exact (abandon_doesOnly group).run src arises
  | createEntity group body => exact (createEntity_doesOnly group body).run src arises
  | updateEntity group id body => exact (updateEntity_doesOnly group id body).run src arises
  | deleteEntity group id => exact (deleteEntity_doesOnly group id).run src arises
  | redirectEntity group id target =>
    exact Write.DoesOnly.run (.bind (.look _) fun _ => stageEdit_existing_doesOnly group _ _ _) src
      arises
  | autoaccept editor body =>
    change c.LeadsBy src _ (autoaccept editor body src c).2
    rcases arises.autoaccept_cases src editor body with ⟨err, d, heq, same, draws⟩ |
      ⟨group, d, new, begins, ⟨id, entry, heq, -, accepts⟩ | ⟨err, t, heq, abandons⟩⟩
    · rw [heq]
      exact .of_same draws same
    · rw [heq]
      exact .trans (begins.mono fun _ h => ⟨group, new, .inl h⟩)
        (accepts.mono fun _ h => ⟨group, new, .inr (.inl h)⟩)
    · rw [heq]
      exact .trans (begins.mono fun _ h => ⟨group, new, .inl h⟩)
        (abandons.mono fun _ h => ⟨group, new, .inr (.inr h)⟩)

theorem Arises.after (arises : c.Arises) (src : Source) (op : Operation α) :
    (op.after src c).Arises :=
  arises.becomes (arises.after_leadsBy src op).becomes

end Operations

/-- What the acceptance of an editgroup answers, and the catalog behind it. -/
theorem Arises.answer_accept {c : Catalog} (arises : c.Arises) (src : Source)
    (group : EditgroupId) :
    (Operation.accept group).answer src c = .ok ⟨c.nextSeq, group, src.time (c.ticks + 1)⟩ ∧
        (Operation.accept group).after src c = c.accepting src group ∧
        c.HasWritable group ∧ c.TakesAll (inApplicationOrder (c.editsOf group)) ∨
      ∃ err, (Operation.accept group).answer src c = .error err ∧
        ((Operation.accept group).after src c).toStore = c.toStore ∧
        (¬c.HasWritable group ∨
          c.HasWritable group ∧ ∃ done e rest, c.StopsAt group done e rest ∧ e.RefusedBy err) := by
  rcases arises.accept_cases src group with ⟨ok, writable, takes⟩ | ⟨err, d, error, why⟩
  · have performed := Write.run_eq_ok.2 ok
    exact .inl ⟨congrArg Prod.fst performed, congrArg Prod.snd performed, writable, takes⟩
  · have failed : (Operation.accept group).answer src c = .error err := by
      simp only [Operation.answer, Operation.perform, Write.run, error]
    exact .inr ⟨err, failed, Write.run_error failed, why⟩

end Store

namespace Catalog

/-- What a run does to the tables is to make changes. -/
theorem Leads.becomes {src : Source} {c d : Catalog} (h : Leads src c d) (arises : c.Arises) :
    c.Becomes d.toStore := by
  induction h with
  | stay => exact .refl
  | go op _ ih => exact ih.trans ((arises.becomes ih).after_leadsBy src op).becomes

/-- The tables of a catalog that operations lead to arise from empty ones. -/
theorem Reachable.arises {src : Source} {c : Catalog} (h : Reachable src c) : c.Arises :=
  Leads.becomes h .refl

end Catalog

/-! ### A source -/

/-- The identifier of a number. -/
def Ident.nth {kind : IdentKind} (n : Nat) : Ident kind := ⟨⟨BitVec.ofNat 128 n⟩⟩

/-- A source that counts: identifiers from zero on, and seconds from the start of a day on. -/
def Source.counting : Source where
  id n := ⟨BitVec.ofNat 128 n⟩
  time n :=
    { date := ⟨1970, 1, 1, by decide⟩, second := n % 86400, nano := 0
      second_lt := Nat.mod_lt _ (by omega) }

end Biblio
