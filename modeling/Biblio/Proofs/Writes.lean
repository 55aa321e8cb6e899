import Biblio.Proofs.Course

/-! What the writes to a catalog do.

    For each write, what holds of the tables when it succeeds, what it answers, and the catalog
    behind it. What an edit needs to be staged is taken together from the checks and from what the
    store refuses. -/

namespace Biblio.Store

/-! ### Steps of a write -/

section Steps
variable {α β : Type} {src : Source} {c d : Catalog} {b : β}

theorem look_bind_eq_ok {read : Store → Except CatalogError α} {f : α → Write β} :
    (look read >>= f) src c = (.ok b, d) ↔
      ∃ a, read c.toStore = .ok a ∧ f a src c = (.ok b, d) := by
  rw [Write.bind_eq_ok]
  constructor
  · rintro ⟨a, _, h, h'⟩
    obtain ⟨hread, rfl⟩ := look_eq_ok.1 h
    exact ⟨a, hread, h'⟩
  · rintro ⟨a, hread, h'⟩
    exact ⟨a, c, look_eq_ok.2 ⟨hread, rfl⟩, h'⟩

theorem demand_bind_eq_ok {condition : Store → Bool} {refusal : Refusal} {f : Unit → Write β} :
    (demand condition refusal >>= f) src c = (.ok b, d) ↔
      condition c.toStore = true ∧ f () src c = (.ok b, d) := by
  rw [Write.bind_eq_ok]
  constructor
  · rintro ⟨_, _, h, h'⟩
    obtain ⟨holds, rfl⟩ := demand_eq_ok.1 h
    exact ⟨holds, h'⟩
  · rintro ⟨holds, h'⟩
    exact ⟨(), c, demand_eq_ok.2 ⟨holds, rfl⟩, h'⟩

theorem drawId_bind_eq_ok {kind : IdentKind} {f : Ident kind → Write β} :
    (drawId kind >>= f) src c = (.ok b, d) ↔
      f ⟨src.id c.drawn⟩ src { c with drawn := c.drawn + 1 } = (.ok b, d) := by
  rw [Write.bind_eq_ok]
  constructor
  · rintro ⟨_, _, h, h'⟩
    obtain ⟨rfl, rfl⟩ := drawId_eq_ok.1 h
    exact h'
  · exact fun h => ⟨_, _, drawId_eq_ok.2 ⟨rfl, rfl⟩, h⟩

theorem drawTime_bind_eq_ok {f : Instant → Write β} :
    (drawTime >>= f) src c = (.ok b, d) ↔
      f (src.time c.ticks) src { c with ticks := c.ticks + 1 } = (.ok b, d) := by
  rw [Write.bind_eq_ok]
  constructor
  · rintro ⟨_, _, h, h'⟩
    obtain ⟨rfl, rfl⟩ := drawTime_eq_ok.1 h
    exact h'
  · exact fun h => ⟨_, _, drawTime_eq_ok.2 ⟨rfl, rfl⟩, h⟩

end Steps

/-! ### Insertion -/

section Insertion
variable {src : Source} {c d : Catalog} {u : Unit}

theorem insertEditor_eq_ok {e : Editor} :
    insertEditor e src c = (.ok u, d) ↔
      (∀ f ∈ c.editors, f.id ≠ e.id ∧ f.username ≠ e.username) ∧
        c.withStore { c.toStore with editors := c.editors ++ [e] } = d := by
  simp only [insertEditor, demand_bind_eq_ok, alter_eq_ok, Bool.and_eq_true, editor?, editorNamed?,
    find?_isNone_iff, ← forall₂_and]

theorem insertEditgroup_eq_ok {g : EditgroupRow} :
    insertEditgroup g src c = (.ok u, d) ↔
      (∀ h ∈ c.editgroups, h.id ≠ g.id) ∧ (∃ e ∈ c.editors, e.id = g.editor) ∧
        c.withStore { c.toStore with editgroups := c.editgroups ++ [g] } = d := by
  simp only [insertEditgroup, demand_bind_eq_ok, alter_eq_ok, editgroupRow?, editor?,
    find?_isNone_iff, find?_isSome_iff]

theorem insertRevision_eq_ok {r : RevisionRow} :
    insertRevision r src c = (.ok u, d) ↔
      (∀ r' ∈ c.revisions, r'.id ≠ r.id) ∧
        c.withStore { c.toStore with revisions := c.revisions ++ [r] } = d := by
  simp only [insertRevision, demand_bind_eq_ok, alter_eq_ok, revisionRow?, find?_isNone_iff]

theorem insertIdentity_eq_ok {x : Identity} :
    insertIdentity x src c = (.ok u, d) ↔
      (x.revision.isNone || x.redirect.isNone) = true ∧
        (∀ y ∈ c.identities, y.id ≠ x.id) ∧ holds c.revisionRow? x.revision = true ∧
          holds c.identity? x.redirect = true ∧
            c.withStore { c.toStore with identities := c.identities ++ [x] } = d := by
  simp only [insertIdentity, demandOnePointer, demand_bind_eq_ok, alter_eq_ok, identity?,
    find?_isNone_iff, Bool.and_eq_true, and_assoc]

theorem pendingEdit?_isNone_iff {s : Store} {group : EditgroupId} {id : EntityId} :
    (s.pendingEdit? group id).isNone = true ↔
      ∀ f ∈ s.edits, f.editgroup = group → f.ident ≠ id := by
  rw [pendingEdit?, Option.isNone_iff_eq_none, List.find?_eq_none]
  simp

/-- What an edit to be inserted must refer to is in the tables. -/
theorem insertEdit_eq_ok {e : Edit} :
    insertEdit e src c = (.ok u, d) ↔
      ((∀ f ∈ c.edits, f.id ≠ e.id) ∧
          ∀ f ∈ c.edits, f.editgroup = e.editgroup → f.ident ≠ e.ident) ∧
        ((c.editgroupRow? e.editgroup).isSome = true ∧ (c.identity? e.ident).isSome = true ∧
          holds c.revisionRow? e.previousRevision = true ∧
          holds c.identity? e.previousRedirect = true ∧
          holds c.revisionRow? e.action.revision? = true ∧
          holds c.identity? e.action.target? = true) ∧
        c.withStore { c.toStore with edits := c.edits ++ [e] } = d := by
  simp only [insertEdit, demand_bind_eq_ok, alter_eq_ok, edit?, find?_isNone_iff,
    pendingEdit?_isNone_iff, Bool.and_eq_true, and_assoc]

end Insertion

/-! ### Editors, editgroups and revisions -/

section Rows
variable {src : Source} {c d : Catalog}

theorem createEditor_eq_ok {username : String} {isAdmin isBot : Bool} {e : Editor} :
    createEditor username isAdmin isBot src c = (.ok e, d) ↔
      c.checkUsername username = .ok () ∧
        (∀ f ∈ c.editors, f.id ≠ e.id ∧ f.username ≠ e.username) ∧
        e = ⟨⟨src.id c.drawn⟩, username, isAdmin, isBot, none, src.time c.ticks⟩ ∧
        d = { c with
          editors := c.editors ++ [e]
          drawn := c.drawn + 1
          ticks := c.ticks + 1 } := by
  simp only [createEditor, look_bind_eq_ok, drawId_bind_eq_ok, drawTime_bind_eq_ok]
  simp only [Write.bind_eq_ok, insertEditor_eq_ok, Write.pure_eq_ok]
  constructor
  · rintro ⟨_, name, _, _, ⟨new, rfl⟩, rfl, rfl⟩
    exact ⟨name, new, rfl, rfl⟩
  · rintro ⟨name, new, rfl, rfl⟩
    exact ⟨(), name, (), _, ⟨new, rfl⟩, rfl, rfl⟩

/-- The stored editgroup that is made for an editor. -/
def newEditgroup (editor : EditorId) (description : Option String) (extra : Extra)
    (group : EditgroupId) (time : Instant) : EditgroupRow where
  id := group
  editor := editor
  status := .pending
  description := description
  extra := if extra.isEmpty then none else some extra.toJson.text
  createdAt := time
  closedAt := none

theorem createEditgroup_eq_ok {editor : EditorId} {description : Option String} {extra : Extra}
    {group : EditgroupId} :
    createEditgroup editor description extra src c = (.ok group, d) ↔
      (∃ e ∈ c.editors, e.id = editor) ∧ (∀ g ∈ c.editgroups, g.id ≠ group) ∧
        group = ⟨src.id c.drawn⟩ ∧
        d = { c with
          editgroups := c.editgroups ++
            [newEditgroup editor description extra group (src.time c.ticks)]
          drawn := c.drawn + 1
          ticks := c.ticks + 1 } := by
  simp only [createEditgroup, look_bind_eq_ok, drawId_bind_eq_ok, drawTime_bind_eq_ok]
  simp only [Write.bind_eq_ok, insertEditgroup_eq_ok, Write.pure_eq_ok]
  constructor
  · rintro ⟨_, -, _, _, ⟨new, known, rfl⟩, rfl, rfl⟩
    exact ⟨known, new, rfl, rfl⟩
  · rintro ⟨known, new, rfl, rfl⟩
    obtain ⟨e, he⟩ := Option.isSome_iff_exists.1 (find?_isSome_iff.2 known)
    exact ⟨e, found_eq_ok.2 he, (), _, ⟨new, known, rfl⟩, rfl, rfl⟩

theorem checkBody_eq_ok {s : Store} {body : EntityBody} :
    s.checkBody body = .ok () ↔ s.bodyFaults body = [] := by
  unfold checkBody
  split <;> simp_all

theorem createRevision_eq_ok {body : EntityBody} {rev : RevisionId} :
    createRevision body src c = (.ok rev, d) ↔
      c.bodyFaults body = [] ∧ (∀ r ∈ c.revisions, r.id ≠ rev) ∧ rev = ⟨src.id c.drawn⟩ ∧
        d = { c with
          revisions := c.revisions ++ [.ofBody body rev (src.time c.ticks)]
          drawn := c.drawn + 1
          ticks := c.ticks + 1 } := by
  simp only [createRevision, look_bind_eq_ok, drawId_bind_eq_ok, drawTime_bind_eq_ok]
  simp only [Write.bind_eq_ok, insertRevision_eq_ok, Write.pure_eq_ok]
  constructor
  · rintro ⟨_, valid, _, _, ⟨new, rfl⟩, rfl, rfl⟩
    exact ⟨checkBody_eq_ok.1 valid, new, rfl, rfl⟩
  · rintro ⟨valid, new, rfl, rfl⟩
    exact ⟨(), checkBody_eq_ok.2 valid, (), _, ⟨new, rfl⟩, rfl, rfl⟩

theorem abandon_eq_ok {group : EditgroupId} {u : Unit} (keyed : c.Keyed) :
    abandon group src c = (.ok u, d) ↔
      c.HasWritable group ∧
        d = { c.withStore (c.closed group .abandoned (src.time c.ticks)) with
          ticks := c.ticks + 1 } := by
  simp only [abandon, look_bind_eq_ok, drawTime_bind_eq_ok, closeEditgroup, alter_eq_ok]
  rcases keyed.requireOpen_cases group with ⟨writable, has⟩ | ⟨⟨err, writable⟩, hasNot⟩
  · constructor
    · rintro ⟨_, -, rfl⟩
      exact ⟨has, rfl⟩
    · rintro ⟨-, rfl⟩
      obtain ⟨header, h⟩ := writable
      exact ⟨header, h, rfl⟩
  · simp [writable, hasNot]

end Rows

/-! ### Edits -/

section Staging
variable {s : Store} {group : EditgroupId} {previous : Option RevisionId} {action : EditAction}

theorem newBase_eq_ok {kind : EntityKind} {base : EditBase} :
    newBase kind previous action = .ok base ↔
      action.revision?.isSome = true ∧ previous = none ∧ base = ⟨none, kind, none⟩ := by
  cases hrev : action.revision? <;> cases previous <;> simp [newBase, hrev, eq_comm (b := base)]

/-- What must hold of an existing identity for an edit of it to have a base. -/
theorem existingBase_eq_ok {id : EntityId} {base : EditBase} :
    s.existingBase group id previous = .ok base ↔
      ∃ x, s.identity? id = some x ∧ x.isDeleted = false ∧ x.isLive = true ∧
        s.pendingEdit? group id = none ∧ (x.revision.isSome = true → previous.isSome = true) ∧
        base = ⟨some id, x.kind, if previous.isNone then x.redirect else none⟩ := by
  unfold existingBase
  rw [Except.bind_eq_ok]
  refine exists_congr fun x => ?_
  rw [getIdentity, found_eq_ok]
  refine and_congr_right fun _ => ?_
  cases x.isDeleted <;> cases x.isLive <;> cases s.pendingEdit? group id <;>
    cases x.revision <;> cases previous <;> simp [eq_comm]

theorem ident_of_existingBase {id : EntityId} {base : EditBase}
    (h : s.existingBase group id previous = .ok base) : base.ident = some id := by
  obtain ⟨x, -, -, -, -, -, rfl⟩ := existingBase_eq_ok.1 h
  rfl

theorem kindOfRevision?_eq_some {rev : RevisionId} {kind : EntityKind}
    (h : s.kindOfRevision? rev = some kind) : s.HasRevision rev kind := by
  obtain ⟨r, hr, rfl⟩ := Option.map_eq_some_iff.1 h
  exact ⟨r, List.mem_of_find?_eq_some hr, by simpa using List.find?_some hr, rfl⟩

/-- What was checked of an edit before it is staged. -/
theorem checkAction_update {base : EditBase} {rev : RevisionId}
    (h : s.checkAction group base (.update rev) = .ok ()) : s.HasRevision rev base.kind := by
  obtain ⟨kind, hkind, h⟩ := Except.bind_eq_ok.1 h
  by_cases same : kind = base.kind
  · exact same ▸ kindOfRevision?_eq_some (found_eq_ok.1 hkind)
  · simp [same] at h

theorem checkPrevious_some {rev : RevisionId} (h : s.checkPrevious (some rev) = .ok ()) :
    ∃ kind, s.HasRevision rev kind := by
  cases hkind : s.kindOfRevision? rev with
  | some kind => exact ⟨kind, kindOfRevision?_eq_some hkind⟩
  | none =>
    simp only [checkPrevious, hkind, found] at h
    cases h

theorem createdIn?_eq_some {id : EntityId} {kind : EntityKind}
    (h : s.createdIn? group id = some kind) :
    ∃ y ∈ s.identities, y.id = id ∧ y.isLive = false ∧
      ∃ f ∈ s.edits, f.editgroup = group ∧ f.ident = id ∧ f.action.revision?.isSome = true ∧
        f.kind = kind := by
  unfold createdIn? at h
  split at h
  · rename_i y hy
    split at h
    · cases h
    · rename_i live
      obtain ⟨f, hf, hkind⟩ := Option.map_eq_some_iff.1 h
      obtain ⟨hf, revision⟩ := Option.filter_eq_some_iff.1 hf
      have found := List.find?_some hf
      rw [Bool.and_eq_true, beq_iff_eq, beq_iff_eq] at found
      refine ⟨y, List.mem_of_find?_eq_some hy, by simpa using List.find?_some hy, ?_, ?_⟩
      · simpa using live
      · exact ⟨f, List.mem_of_find?_eq_some hf, found.1, found.2, revision, hkind⟩
  · cases h

theorem checkRedirectTarget_map {source target : EntityId} {kind : EntityKind}
    (h : (s.checkRedirectTarget source target).map (·.kind) = .ok kind) :
    ∃ y, s.getIdentity target = .ok y ∧ target ≠ source ∧ y.isLive = true ∧ y.isDeleted = false ∧
      y.redirect = none ∧ y.kind = kind := by
  cases hget : s.getIdentity target with
  | error err =>
    unfold checkRedirectTarget at h
    rw [hget] at h
    split at h <;> cases h
  | ok y =>
    rcases checkRedirectTarget_cases source hget with
      ⟨ok, apart, live, kept, redirect⟩ | ⟨err, error, -⟩
    · rw [ok] at h
      exact ⟨y, rfl, apart, live, kept, redirect, Except.ok.inj h⟩
    · rw [error] at h
      cases h

theorem Keyed.checkAction_redirect (keyed : s.Keyed) {base : EditBase} {e : Edit}
    {target : EntityId} (h : s.checkAction e.editgroup base (.redirect target) = .ok ())
    (ident : base.ident = some e.ident) (kind : base.kind = e.kind) : s.MayTarget e target := by
  simp only [checkAction, ident] at h
  obtain ⟨kind', hkind, h⟩ := Except.bind_eq_ok.1 h
  by_cases same : kind' = base.kind
  swap
  · simp [same] at h
  rw [same, kind] at hkind
  unfold redirectTargetKind at hkind
  cases hcreated : s.createdIn? e.editgroup target with
  | some found =>
    rw [hcreated] at hkind
    obtain rfl := Except.ok.inj hkind
    obtain ⟨y, hy, hid, live, created⟩ := createdIn?_eq_some hcreated
    exact ⟨y, hy, hid, .inl ⟨live, created⟩⟩
  | none =>
    rw [hcreated] at hkind
    obtain ⟨y, hget, apart, live, kept, redirect, hykind⟩ := checkRedirectTarget_map hkind
    obtain ⟨hy, hid⟩ := keyed.getIdentity_eq_ok.1 hget
    exact ⟨y, hy, hid, .inr ⟨apart, hykind, live, kept, redirect⟩⟩

end Staging

section Edits
variable {src : Source} {c d : Catalog} {group : EditgroupId} {previous : Option RevisionId}
  {action : EditAction} {e : Edit}

/-- A new identity of which nothing was accepted yet. -/
def newIdentity (kind : EntityKind) (id : EntityId) (time : Instant) : Identity where
  id := id
  kind := kind
  revision := none
  redirect := none
  isLive := false
  isDeleted := false
  createdAt := time

theorem allocate_eq_ok {kind : EntityKind} {id : EntityId} :
    allocate kind src c = (.ok id, d) ↔
      (∀ y ∈ c.identities, y.id ≠ id) ∧ id = ⟨src.id c.drawn⟩ ∧
        d = { c with
          identities := c.identities ++ [newIdentity kind id (src.time c.ticks)]
          drawn := c.drawn + 1
          ticks := c.ticks + 1 } := by
  simp only [allocate, drawId_bind_eq_ok, drawTime_bind_eq_ok]
  simp only [Write.bind_eq_ok, insertIdentity_eq_ok, Write.pure_eq_ok]
  constructor
  · rintro ⟨_, _, ⟨-, new, -, -, rfl⟩, rfl, rfl⟩
    exact ⟨new, rfl, rfl⟩
  · rintro ⟨new, rfl, rfl⟩
    exact ⟨(), _, ⟨rfl, new, rfl, rfl, rfl⟩, rfl, rfl⟩

/-- An edit is made with a new identifier and the time, and inserted. -/
theorem insertNewEdit_eq_ok {make : EditId → Instant → Edit} :
    (do let id ← drawId .edit
        let time ← drawTime
        insertEdit (make id time)
        return make id time : Write Edit) src c = (.ok e, d) ↔
      e = make ⟨src.id c.drawn⟩ (src.time c.ticks) ∧
        ∃ u, insertEdit e src { c with drawn := c.drawn + 1, ticks := c.ticks + 1 } =
          (.ok u, d) := by
  simp only [drawId_bind_eq_ok, drawTime_bind_eq_ok]
  simp only [Write.bind_eq_ok, Write.pure_eq_ok]
  constructor
  · rintro ⟨u, _, inserted, rfl, rfl⟩
    exact ⟨rfl, u, inserted⟩
  · rintro ⟨rfl, u, inserted⟩
    exact ⟨u, d, inserted, rfl, rfl⟩

theorem Keyed.requireOpen_eq_ok {s : Store} (keyed : s.Keyed) {header : Editgroup}
    (h : s.requireOpen group = .ok header) : s.HasWritable group := by
  rcases keyed.requireOpen_cases group with ⟨-, has⟩ | ⟨⟨err, error⟩, -⟩
  · exact has
  · rw [error] at h
    cases h

/-- What the checks of an edit of a new identity come to. -/
theorem Keyed.mayStageNew {s : Store} (keyed : s.Keyed) {header : Editgroup}
    (writable : s.requireOpen group = .ok header) {kind : EntityKind} {base : EditBase}
    (hbase : newBase kind previous action = .ok base)
    (checked : s.checkAction group base action = .ok ()) {id : EntityId} {edit : EditId}
    (unknown : ∀ y ∈ s.identities, y.id ≠ id) (fresh : ∀ f ∈ s.edits, f.id ≠ edit)
    (alone : ∀ f ∈ s.edits, f.editgroup = group → f.ident ≠ id) (made staged : Instant) :
    s.MayStageNew (newIdentity kind id made)
      ⟨edit, group, id, base.kind, previous, base.previousRedirect, action, staged⟩ := by
  obtain ⟨hrevision, rfl, rfl⟩ := newBase_eq_ok.1 hbase
  obtain ⟨rev, hrev⟩ := Option.isSome_iff_exists.1 hrevision
  obtain rfl := EditAction.revision?_eq_some.1 hrev
  exact {
    group := keyed.requireOpen_eq_ok writable
    fresh := fresh
    alone := alone
    unknown := unknown
    unaccepted := ⟨rfl, rfl, rfl⟩
    ident := rfl
    kind := rfl
    base := rfl
    action := ⟨rev, rfl, checkAction_update checked⟩ }

/-- What the checks of an edit of an identity that is there come to. -/
theorem Keyed.mayStageOn {s : Store} (keyed : s.Keyed) {header : Editgroup}
    (writable : s.requireOpen group = .ok header) {id : EntityId} {base : EditBase}
    (hbase : s.existingBase group id previous = .ok base)
    (checked : s.checkAction group base action = .ok ())
    (based : s.checkPrevious previous = .ok ()) {edit : EditId}
    (fresh : ∀ f ∈ s.edits, f.id ≠ edit) (staged : Instant) :
    ∃ x, x.id = id ∧ s.MayStageOn x
      ⟨edit, group, id, base.kind, previous, base.previousRedirect, action, staged⟩ := by
  obtain ⟨x, hx, kept, live, unstaged, named, rfl⟩ := existingBase_eq_ok.1 hbase
  obtain ⟨hmem, rfl⟩ := keyed.identity?_eq_some.1 hx
  refine ⟨x, rfl, ?_⟩
  exact {
    group := keyed.requireOpen_eq_ok writable
    fresh := fresh
    alone := pendingEdit?_isNone_iff.1 (Option.isNone_iff_eq_none.2 unstaged)
    known := hmem
    live := live
    kept := kept
    ident := rfl
    kind := rfl
    based := named
    redirect := rfl
    previous := fun rev hrev => checkPrevious_some (hrev ▸ based)
    revision := fun rev (hrev : action = .update rev) => checkAction_update (hrev ▸ checked)
    target := fun target (htarget : action = .redirect target) =>
      keyed.checkAction_redirect (htarget ▸ checked) rfl rfl }

/-- A staged edit of a new identity. -/
theorem stageEdit_new (keyed : c.Keyed) {kind : EntityKind}
    (h : stageEdit group (.new kind) previous action src c = (.ok e, d)) :
    e.editgroup = group ∧ e.previousRevision = previous ∧ e.action = action ∧
      ∃ x, (x.id = ⟨src.id c.drawn⟩ ∧ x.createdAt = src.time c.ticks ∧
          e.id = ⟨src.id (c.drawn + 1)⟩) ∧ c.MayStageNew x e ∧ d = { c with
        identities := c.identities ++ [x]
        edits := c.edits ++ [e]
        drawn := c.drawn + 2
        ticks := c.ticks + 2 } := by
  simp only [stageEdit, look_bind_eq_ok] at h
  obtain ⟨header, writable, base, hbase, _, checked, _, -, h⟩ := h
  obtain ⟨-, -, rfl⟩ := newBase_eq_ok.1 hbase
  obtain ⟨id, _, allocated, h⟩ := Write.bind_eq_ok.1 h
  obtain ⟨unknown, rfl, rfl⟩ := allocate_eq_ok.1 allocated
  obtain ⟨rfl, _, inserted⟩ := insertNewEdit_eq_ok.1 h
  obtain ⟨⟨fresh, alone⟩, -, rfl⟩ := insertEdit_eq_ok.1 inserted
  refine ⟨rfl, rfl, rfl, newIdentity kind ⟨src.id c.drawn⟩ (src.time c.ticks), ⟨rfl, rfl, rfl⟩, ?_,
    rfl⟩
  exact keyed.mayStageNew writable hbase checked unknown fresh alone _ _

/-- A staged edit of an identity that was there. -/
theorem stageEdit_existing (keyed : c.Keyed) {id : EntityId}
    (h : stageEdit group (.existing id) previous action src c = (.ok e, d)) :
    e.editgroup = group ∧ e.previousRevision = previous ∧ e.action = action ∧
      ∃ x, (x.id = id ∧ e.id = ⟨src.id c.drawn⟩) ∧ c.MayStageOn x e ∧ d = { c with
        edits := c.edits ++ [e]
        drawn := c.drawn + 1
        ticks := c.ticks + 1 } := by
  simp only [stageEdit, look_bind_eq_ok] at h
  obtain ⟨header, writable, base, hbase, _, checked, _, based, h⟩ := h
  rw [ident_of_existingBase hbase] at h
  obtain ⟨id, _, hid, h⟩ := Write.bind_eq_ok.1 h
  obtain ⟨rfl, rfl⟩ := Write.pure_eq_ok.1 hid
  obtain ⟨rfl, _, inserted⟩ := insertNewEdit_eq_ok.1 h
  obtain ⟨⟨fresh, -⟩, -, rfl⟩ := insertEdit_eq_ok.1 inserted
  obtain ⟨x, hx, may⟩ := keyed.mayStageOn writable hbase checked based fresh (src.time c.ticks)
  exact ⟨rfl, rfl, rfl, x, ⟨hx, rfl⟩, may, rfl⟩

theorem removeEdit_eq_ok (keyed : c.Keyed) {id : EditId}
    (h : removeEdit id src c = (.ok e, d)) :
    e ∈ c.edits ∧ e.id = id ∧ c.HasWritable e.editgroup ∧
      d = c.withStore { c.toStore with edits := c.edits.filter (·.id != e.id) } := by
  simp only [removeEdit, look_bind_eq_ok] at h
  obtain ⟨f, hf, header, hheader, h⟩ := h
  obtain ⟨_, _, deleted, h⟩ := Write.bind_eq_ok.1 h
  obtain ⟨rfl, rfl⟩ := Write.pure_eq_ok.1 h
  obtain rfl := alter_eq_ok.1 deleted
  have there := found_eq_ok.1 hf
  obtain rfl : f.id = id := by simpa using List.find?_some there
  exact ⟨List.mem_of_find?_eq_some there, rfl, keyed.requireOpen_eq_ok hheader, rfl⟩

end Edits

end Biblio.Store
