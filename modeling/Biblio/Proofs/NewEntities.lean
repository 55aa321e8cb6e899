import Biblio.Proofs.Links
import Biblio.Proofs.References
import Biblio.Proofs.Requests

/-! New entities.

    To create an entity is to make a draft of it: a revision, an identity of which nothing was
    accepted, and the edit that is to make it live. A release that names no work gets one, which is
    drafted in front of it. An editgroup that can be worked on takes every body that is right: the
    new work is always right, and to name it makes nothing of the release wrong or right. -/

namespace Biblio

/-! ### Releases without a work -/

namespace EntityBody

/-- A release that names no work. -/
def lacksWork : EntityBody → Bool
  | release r => r.workId.isNone
  | _ => false

/-- The body, as a release of this work if it is a release. -/
def inWork (work : EntityId) : EntityBody → EntityBody
  | release r => release { r with workId := some work }
  | b => b

variable {b : EntityBody} {work : EntityId}

@[simp] theorem kind_inWork : (b.inWork work).kind = b.kind := by cases b <;> rfl

/-- No rule is about the work that is named. -/
@[simp] theorem faults_inWork : (b.inWork work).faults = b.faults := by cases b <;> rfl

theorem relations_inWork (lacks : b.lacksWork = true) :
    (b.inWork work).relations = ⟨.work, work, 0⟩ :: b.relations := by
  cases b with
  | release r =>
    have unnamed : r.workId = none := Option.isNone_iff_eq_none.1 lacks
    simp [inWork, relations, Relation.ofField, unnamed]
  | _ => cases lacks

/-- Without a work no link is to one. -/
theorem targetKind_ne_work (lacks : b.lacksWork = true) {l : Relation} (hl : l ∈ b.relations) :
    l.kind.targetKind ≠ .work := by
  have links := mem_relations.1 hl
  obtain ⟨kind, target, position⟩ := l
  simp only [Relation.place] at links
  cases links with
  | work named => simp [lacksWork, named] at lacks
  | _ => simp [RelationKind.targetKind]

end EntityBody

namespace Store

section Faults
variable {s t : Store}

/-- Nothing is wrong with a reference that leads to an identity of the right kind, unless that was
    deleted. -/
theorem Keyed.relationFault?_eq_none (keyed : s.Keyed) {entity : EntityKind} {l : Relation} :
    s.relationFault? entity l = none ↔
      ∃ x ∈ s.identities, x.id = l.target ∧ x.kind = l.kind.targetKind ∧ x.isDeleted = false := by
  constructor
  · intro right
    obtain ⟨x, hx, hid, kind⟩ := hasIdentity_of_relationFault? right
    refine ⟨x, hx, hid, kind, ?_⟩
    by_contra gone
    have misses : s.Misses l.target l.kind.targetKind (.deletedTarget l.kind.targetKind l.target) :=
      .deleted hx hid kind (by simpa using gone)
    cases right.symm.trans (keyed.relationFault?_eq_some.2 ⟨_, misses, rfl⟩)
  · rintro ⟨x, hx, hid, kind, kept⟩
    simp [relationFault?, keyed.identity?_eq_some.2 ⟨hx, hid⟩, kind, kept]

/-- To name a work that has just been made changes nothing of whether a release is right. -/
theorem Keyed.bodyFaults_inWork (before : s.Keyed) (after : t.Keyed) {x : Identity}
    (tables : t.identities = s.identities ++ [x]) (work : x.kind = .work)
    (kept : x.isDeleted = false) {b : EntityBody} (lacks : b.lacksWork = true) :
    t.bodyFaults (b.inWork x.id) = [] ↔ s.bodyFaults b = [] := by
  have there : t.relationFault? b.kind ⟨.work, x.id, 0⟩ = none :=
    after.relationFault?_eq_none.2 ⟨x, by rw [tables]; simp, rfl, work, kept⟩
  have same : ∀ l ∈ b.relations,
      (t.relationFault? b.kind l = none ↔ s.relationFault? b.kind l = none) := by
    intro l hl
    rw [after.relationFault?_eq_none, before.relationFault?_eq_none, tables]
    constructor
    · rintro ⟨y, hy, hid, kind, right⟩
      rcases List.mem_append.1 hy with old | new
      · exact ⟨y, old, hid, kind, right⟩
      · obtain rfl := List.mem_singleton.1 new
        exact absurd (kind.symm.trans work) (EntityBody.targetKind_ne_work lacks hl)
    · rintro ⟨y, hy, right⟩
      exact ⟨y, List.mem_append_left _ hy, right⟩
  simp only [bodyFaults, EntityBody.faults_inWork, EntityBody.kind_inWork,
    EntityBody.relations_inWork lacks, List.filterMap_cons, there, List.append_eq_nil_iff,
    List.filterMap_eq_nil_iff]
  exact and_congr_right fun _ => forall₂_congr same

end Faults

end Store

/-! ### Drafts -/

/-- What is made for a new entity in an editgroup: a revision of its body, an identity of which
    nothing was accepted, and the edit that is to bring the one to the other. -/
structure Draft (group : EditgroupId) where
  body : EntityBody
  revision : RevisionRow
  identity : Identity
  edit : Edit
  revision_isOf : revision.IsOf body
  identity_wip : identity.HasShape .wip
  identity_kind : identity.kind = body.kind
  edit_isOf : edit.IsOf identity
  edit_group : edit.editgroup = group
  edit_base : edit.base = (none, none)
  edit_action : edit.action = .update revision.id

/-- The edit of a draft fits its identity. -/
theorem Draft.fits {group : EditgroupId} (p : Draft group) : p.edit.Fits p.identity where
  ident := p.edit_isOf.ident.symm
  kept := p.identity_wip.2.1
  base := by
    obtain ⟨-, -, revision, redirect⟩ := p.identity_wip
    rw [Identity.pointer, revision, redirect, p.edit_base]

/-- The drafts that are made for an entity with this body. -/
inductive EntityBody.DraftedBy {group : EditgroupId} : EntityBody → List (Draft group) → Prop
  | alone {b : EntityBody} {p : Draft group} (complete : b.lacksWork = false)
    (entity : p.body = b) : DraftedBy b [p]
  | withWork {b : EntityBody} {w p : Draft group} (lacks : b.lacksWork = true)
    (work : w.body = .work {}) (entity : p.body = b.inWork w.identity.id) : DraftedBy b [w, p]

/-- The draft with the next identifiers and times of the source. -/
def Catalog.nextDraft (src : Source) (c : Catalog) (group : EditgroupId) {body : EntityBody}
    (valid : body.faults = []) : Draft group where
  body := body
  revision := .ofBody body ⟨src.id c.drawn⟩ (src.time c.ticks)
  identity := Store.newIdentity body.kind ⟨src.id (c.drawn + 1)⟩ (src.time (c.ticks + 1))
  edit := {
    id := ⟨src.id (c.drawn + 2)⟩
    editgroup := group
    ident := ⟨src.id (c.drawn + 1)⟩
    kind := body.kind
    previousRevision := none
    previousRedirect := none
    action := .update ⟨src.id c.drawn⟩
    createdAt := src.time (c.ticks + 2) }
  revision_isOf := ⟨valid, rfl⟩
  identity_wip := ⟨rfl, rfl, rfl, rfl⟩
  identity_kind := rfl
  edit_isOf := ⟨rfl, rfl, rfl⟩
  edit_group := rfl
  edit_base := rfl
  edit_action := rfl

namespace Store

/-- The tables with drafts added. -/
def withDrafts {group : EditgroupId} (drafts : List (Draft group)) (s : Store) : Store :=
  { s with
    revisions := s.revisions ++ drafts.map (·.revision)
    identities := s.identities ++ drafts.map (·.identity)
    edits := s.edits ++ drafts.map (·.edit) }

/-- What creating an entity does: drafts are added, the entity's own is the last of them, and all
    their identities are new. -/
structure Creates {group : EditgroupId} (s t : Store) (body : EntityBody)
    (drafts : List (Draft group)) (e : Edit) : Prop where
  draftedBy : body.DraftedBy drafts
  last : (drafts.map (·.edit)).getLast? = some e
  new : ∀ p ∈ drafts, ∀ y ∈ s.identities, y.id ≠ p.identity.id
  tables : t = s.withDrafts drafts

section Drafts
variable {group : EditgroupId}

theorem withDrafts_append (s : Store) (drafts more : List (Draft group)) :
    s.withDrafts (drafts ++ more) = (s.withDrafts drafts).withDrafts more := by
  simp [withDrafts]

theorem editsOf_withDrafts (s : Store) (drafts : List (Draft group)) :
    (s.withDrafts drafts).editsOf group = s.editsOf group ++ drafts.map (·.edit) := by
  have own : ∀ e ∈ drafts.map (·.edit), (e.editgroup == group) = true := by
    intro e he
    obtain ⟨p, -, rfl⟩ := List.mem_map.1 he
    exact beq_iff_eq.2 p.edit_group
  rw [editsOf, withDrafts, List.filter_append, List.filter_eq_self.2 own, ← editsOf]

/-- A release without a work is right if it is right behind the draft of one that it names. -/
theorem Keyed.bodyFaults_withDrafts {s : Store} (keyed : s.Keyed) {w : Draft group}
    (work : w.body = .work {}) (there : (s.withDrafts [w]).Keyed) {b : EntityBody}
    (lacks : b.lacksWork = true) :
    (s.withDrafts [w]).bodyFaults (b.inWork w.edit.ident) = [] ↔ s.bodyFaults b = [] := by
  have kind : w.identity.kind = .work := by
    rw [w.identity_kind, work]
    rfl
  rw [w.edit_isOf.ident]
  exact keyed.bodyFaults_inWork there rfl kind w.identity_wip.2.1 lacks

end Drafts

section Creation
variable {src : Source} {c d : Catalog} {group : EditgroupId} {body : EntityBody} {e : Edit}

/-- Of every new entity one draft is made, if the editgroup can be worked on and the body is
    right. -/
theorem Arises.stageNew_draft (arises : c.Arises) (ok : stageNew group body src c = (.ok e, d)) :
    c.HasWritable group ∧ c.bodyFaults body = [] ∧ ∃ p : Draft group, p.body = body ∧ p.edit = e ∧
      (∀ y ∈ c.identities, y.id ≠ p.identity.id) ∧ d.toStore = c.withDrafts [p] ∧
      d.drawn = c.drawn + 3 := by
  obtain ⟨rev, c', created, staged⟩ := Write.bind_eq_ok.1 ok
  have there := (createRevision_does created).arises arises
  obtain ⟨right, -, rfl, rfl⟩ := createRevision_eq_ok.1 created
  obtain ⟨writable, -, unknown, -, rfl, rfl⟩ := there.stageEdit_new_eq_ok.1 staged
  exact ⟨writable, right, c.nextDraft src group (List.append_eq_nil_iff.1 right).1, rfl, rfl,
    unknown, rfl, rfl⟩

/-- A new entity is drafted if the editgroup can be worked on and the body is right, as long as
    identifiers are new. -/
theorem Arises.stageNew_of_right (arises : c.Arises) (drawn : c.IsDrawn src)
    (fresh : src.IsFresh (c.drawn + 3)) (writable : c.HasWritable group)
    (right : c.bodyFaults body = []) : ∃ e d, stageNew group body src c = (.ok e, d) := by
  obtain ⟨rev, d, created⟩ := createRevision_of_right right
    (drawn.isNew (fresh.mono (by omega)))
  have there := (createRevision_does created).arises arises
  have unknown := drawn.isNew_of_le (Nat.le_add_right _ 1) (fresh.mono (by omega))
  have unstaged := drawn.isNew_of_le (Nat.le_add_right _ 2) fresh
  obtain ⟨-, -, rfl, rfl⟩ := createRevision_eq_ok.1 created
  have brings : HasRevision { c.toStore with
      revisions := c.revisions ++ [.ofBody body ⟨src.id c.drawn⟩ (src.time c.ticks)] }
      ⟨src.id c.drawn⟩ body.kind :=
    ⟨_, List.mem_append_right _ (List.mem_singleton_self _), rfl, rfl⟩
  refine ⟨_, _, Write.bind_eq_ok.2 ⟨_, _, created, there.stageEdit_new_eq_ok.2
    ⟨writable, ⟨rfl, _, rfl, brings⟩, ?_, ?_, rfl, rfl⟩⟩⟩
  · exact find?_isNone_iff.1 unknown.identity
  · exact find?_isNone_iff.1 unstaged.edit

/-- An entity that is no release without a work is drafted as it is. -/
theorem createEntity_of_complete (complete : body.lacksWork = false) :
    createEntity group body = stageNew group body := by
  cases body with
  | release r =>
    have named : r.workId.isSome = true := by
      simpa [EntityBody.lacksWork, Option.isSome_iff_ne_none] using complete
    simp [createEntity, withWork, named]
  | _ => simp [createEntity, withWork]

/-- In front of a release without a work one is drafted. -/
theorem createEntity_of_lacksWork (lacks : body.lacksWork = true) :
    createEntity group body =
      stageNew group (.work {}) >>= fun w => stageNew group (body.inWork w.ident) := by
  cases body with
  | release r =>
    have unnamed : r.workId = none := Option.isNone_iff_eq_none.1 lacks
    simp [createEntity, withWork, unnamed, EntityBody.inWork]
  | _ => cases lacks

/-- What creating an entity does, in an editgroup that can be worked on and with a body that is
    right. -/
theorem Arises.createEntity_creates (arises : c.Arises)
    (ok : createEntity group body src c = (.ok e, d)) :
    c.HasWritable group ∧ c.bodyFaults body = [] ∧
      ∃ drafts : List (Draft group), c.Creates d.toStore body drafts e := by
  cases lacks : body.lacksWork with
  | false =>
    rw [createEntity_of_complete lacks] at ok
    obtain ⟨writable, right, p, rfl, rfl, new, tables, -⟩ := arises.stageNew_draft ok
    exact ⟨writable, right, [p], .alone lacks rfl, rfl, List.forall_mem_singleton.2 new, tables⟩
  | true =>
    rw [createEntity_of_lacksWork lacks] at ok
    obtain ⟨f, c', staged, ok⟩ := Write.bind_eq_ok.1 ok
    have there := (stageNew_doesOnly group (.work {})).arises arises staged
    obtain ⟨writable, -, w, work, rfl, new, tables, -⟩ := arises.stageNew_draft staged
    obtain ⟨-, right, p, entity, rfl, new', tables', -⟩ := there.stageNew_draft ok
    rw [tables] at there right new'
    refine ⟨writable, (arises.keyed.bodyFaults_withDrafts work there.keyed lacks).1 right, [w, p],
      .withWork lacks work (w.edit_isOf.ident ▸ entity), rfl, ?_, ?_⟩
    · have old : ∀ y ∈ c.identities, y.id ≠ p.identity.id := fun y hy =>
        new' y (List.mem_append_left _ hy)
      simpa using ⟨new, old⟩
    · rw [tables', tables, ← withDrafts_append]
      rfl

/-- An entity is created if the editgroup can be worked on and the body is right, as long as
    identifiers are new. -/
theorem Arises.createEntity_of_right (arises : c.Arises) (drawn : c.IsDrawn src)
    (fresh : src.IsFresh (c.drawn + 6)) (writable : c.HasWritable group)
    (right : c.bodyFaults body = []) : ∃ e d, createEntity group body src c = (.ok e, d) := by
  cases lacks : body.lacksWork with
  | false =>
    rw [createEntity_of_complete lacks]
    exact arises.stageNew_of_right drawn (fresh.mono (by omega)) writable right
  | true =>
    rw [createEntity_of_lacksWork lacks]
    have bare : c.bodyFaults (.work {}) = [] := rfl
    obtain ⟨f, c', staged⟩ := arises.stageNew_of_right drawn (fresh.mono (by omega)) writable bare
    have drafted := (stageNew_doesOnly group (.work {})).leadsBy arises staged
    have there := arises.becomes drafted.becomes
    have drawn' := drafted.isDrawn drawn
    obtain ⟨-, -, w, work, rfl, -, tables, count⟩ := arises.stageNew_draft staged
    have writable' : c'.HasWritable group := by
      rw [tables]
      exact writable
    have right' : c'.bodyFaults (body.inWork w.edit.ident) = [] := by
      have keyed := there.keyed
      rw [tables] at keyed ⊢
      exact (arises.keyed.bodyFaults_withDrafts work keyed lacks).2 right
    obtain ⟨e, d, ok⟩ := there.stageNew_of_right drawn' (count ▸ fresh) writable' right'
    exact ⟨e, d, Write.bind_eq_ok.2 ⟨_, _, staged, ok⟩⟩

end Creation

end Store

end Biblio
