import Biblio.Catalog.Entities
import Biblio.Proofs.Effect
import Mathlib.Logic.Relation

/-! The changes that the tables of a catalog go through.

    Everything that operations do to the tables comes down to nine kinds of change, each under
    conditions of its own. What all of them preserve holds of every catalog that operations lead
    to; the first such thing is that rows are told apart by their identifiers, and edits by their
    editgroup and identity, too. -/

namespace Biblio

/-- The metadata of an editgroup can be read. -/
def EditgroupRow.IsLegible (row : EditgroupRow) : Prop :=
  ∀ text, row.extra = some text → ∃ x, decodeStored Extra.decoder text = .ok x

/-- The text of this metadata is kept with the editgroup; none is kept if there is no metadata. -/
def EditgroupRow.Holds (row : EditgroupRow) (x : Extra) : Prop :=
  row.extra = if x.isEmpty then none else some x.toJson.text

/-- The revision of a body. -/
def RevisionRow.ofBody (body : EntityBody) (id : RevisionId) (time : Instant) : RevisionRow where
  id := id
  kind := body.kind
  bodyText := body.canonicalText
  fingerprint := body.fingerprint
  createdAt := time
  relations := body.relations
  externalIds := body.externalIds

/-- What a change does: a row is made, an editor takes up an editgroup, an edit is staged or taken
    out, or an editgroup is closed. An edit is staged together with the new identity that it is of,
    or of an identity that is there. -/
inductive Deed where
  | editor (e : Editor)
  | editgroup (g : EditgroupRow)
  | activate (g : EditgroupRow)
  | revision (r : RevisionRow)
  | stageNew (x : Identity) (e : Edit)
  | stage (x : Identity) (e : Edit)
  | remove (e : Edit)
  | accept (group : EditgroupId)
  | abandon (group : EditgroupId)

namespace Store

/-- There is an editgroup with this identifier that is open: neither accepted nor abandoned. -/
def HasOpen (s : Store) (group : EditgroupId) : Prop :=
  ∃ row ∈ s.editgroups, row.id = group ∧ row.status = .pending

instance (s : Store) (group : EditgroupId) : Decidable (s.HasOpen group) :=
  inferInstanceAs (Decidable (∃ row ∈ s.editgroups, row.id = group ∧ row.status = .pending))

/-- The metadata of the editgroup with this identifier can be read. -/
def IsLegible (s : Store) (group : EditgroupId) : Prop :=
  ∀ row ∈ s.editgroups, row.id = group → row.IsLegible

/-- There is an editgroup with this identifier that can be worked on: it is open, and its metadata,
    which is read before anything is done with it, can be read. -/
def HasWritable (s : Store) (group : EditgroupId) : Prop :=
  ∃ row ∈ s.editgroups, row.id = group ∧ row.status = .pending ∧ row.IsLegible

/-- There is a revision with this identifier, of this kind. -/
def HasRevision (s : Store) (rev : RevisionId) (kind : EntityKind) : Prop :=
  ∃ r ∈ s.revisions, r.id = rev ∧ r.kind = kind

/-- An edit can be staged in its editgroup. -/
structure MayStage (s : Store) (e : Edit) : Prop where
  group : s.HasWritable e.editgroup
  fresh : ∀ f ∈ s.edits, f.id ≠ e.id
  alone : ∀ f ∈ s.edits, f.editgroup = e.editgroup → f.ident ≠ e.ident

theorem MayStage.pending_ne {s : Store} {e : Edit} (h : s.MayStage e) (f : Edit)
    (hf : f ∈ s.edits) : (f.editgroup, f.ident) ≠ (e.editgroup, e.ident) := by
  intro heq
  exact h.alone f hf (Prod.mk.inj heq).1 (Prod.mk.inj heq).2

/-- An edit can be staged that is to make a new identity live. -/
structure MayStageNew (s : Store) (x : Identity) (e : Edit) : Prop extends s.MayStage e where
  unknown : ∀ y ∈ s.identities, y.id ≠ x.id
  unaccepted : x.isLive = false ∧ x.isDeleted = false ∧ x.pointer = (none, none)
  ident : x.id = e.ident
  kind : x.kind = e.kind
  base : e.base = (none, none)
  action : ∃ rev, e.action = .update rev ∧ s.HasRevision rev e.kind

/-- An edit may redirect to this identity when it is staged: the same editgroup creates it, or it is
    live, was not deleted and does not redirect. -/
def MayTarget (s : Store) (e : Edit) (target : EntityId) : Prop :=
  ∃ y ∈ s.identities, y.id = target ∧
    (y.isLive = false ∧ (∃ f ∈ s.edits, f.editgroup = e.editgroup ∧ f.ident = target ∧
        f.action.revision?.isSome = true ∧ f.kind = e.kind) ∨
      target ≠ e.ident ∧ y.kind = e.kind ∧ y.isLive = true ∧ y.isDeleted = false ∧
        y.redirect = none)

/-- An edit of this identity can be staged. -/
structure MayStageOn (s : Store) (x : Identity) (e : Edit) : Prop extends s.MayStage e where
  known : x ∈ s.identities
  live : x.isLive = true
  kept : x.isDeleted = false
  ident : x.id = e.ident
  kind : x.kind = e.kind
  /-- The base is named where there is a revision. -/
  based : x.revision.isSome = true → e.previousRevision.isSome = true
  redirect : e.previousRedirect = if e.previousRevision.isNone then x.redirect else none
  previous : ∀ rev, e.previousRevision = some rev → ∃ kind, s.HasRevision rev kind
  revision : ∀ rev, e.action = .update rev → s.HasRevision rev e.kind
  target : ∀ target, e.action = .redirect target → s.MayTarget e target

/-- The tables with an editor working on an editgroup. -/
def working (editor : EditorId) (group : EditgroupId) (s : Store) : Store :=
  { s with
    editors := changeWhere (·.id == editor)
      (fun e => { e with activeEditgroup := some group }) s.editors }

/-- The tables with an editgroup closed, on which nobody works any more. -/
def closed (group : EditgroupId) (status : EditgroupStatus) (time : Instant) (s : Store) : Store :=
  { s with
    editgroups := changeWhere (·.id == group)
      (fun g => { g with status, closedAt := some time }) s.editgroups
    editors := changeWhere (·.activeEditgroup == some group)
      (fun e => { e with activeEditgroup := none }) s.editors }

/-- The tables with an editgroup accepted: its edits written, the editgroup closed, and an entry
    for it in the changelog. -/
def accepted (group : EditgroupId) (closedAt acceptedAt : Instant) (s : Store) : Store :=
  let t := (s.written (inApplicationOrder (s.editsOf group))).closed group .accepted closedAt
  { t with changelog := s.changelog ++ [⟨s.nextSeq, group, acceptedAt⟩] }

/-- A change of the tables, with the conditions under which operations make it. -/
inductive Change (s : Store) : Deed → Store → Prop
  | editor (e : Editor) (name : s.checkUsername e.username = .ok ())
    (idle : e.activeEditgroup = none)
    (new : ∀ f ∈ s.editors, f.id ≠ e.id ∧ f.username ≠ e.username) :
    Change s (.editor e) { s with editors := s.editors ++ [e] }
  | editgroup (g : EditgroupRow) (pending : g.status = .pending) (unclosed : g.closedAt = none)
    (editor : ∃ e ∈ s.editors, e.id = g.editor) (new : ∀ h ∈ s.editgroups, h.id ≠ g.id)
    (metadata : ∃ x, g.Holds x) :
    Change s (.editgroup g) { s with editgroups := s.editgroups ++ [g] }
  | activate (g : EditgroupRow) (known : g ∈ s.editgroups) (pending : g.status = .pending) :
    Change s (.activate g) (s.working g.editor g.id)
  | revision (body : EntityBody) (id : RevisionId) (time : Instant) (valid : s.bodyFaults body = [])
    (new : ∀ r ∈ s.revisions, r.id ≠ id) :
    Change s (.revision (.ofBody body id time))
      { s with revisions := s.revisions ++ [.ofBody body id time] }
  | stageNew (x : Identity) (e : Edit) (may : s.MayStageNew x e) :
    Change s (.stageNew x e)
      { s with identities := s.identities ++ [x], edits := s.edits ++ [e] }
  | stage (x : Identity) (e : Edit) (may : s.MayStageOn x e) :
    Change s (.stage x e) { s with edits := s.edits ++ [e] }
  | remove (e : Edit) (staged : e ∈ s.edits) (group : s.HasWritable e.editgroup) :
    Change s (.remove e) { s with edits := s.edits.filter (·.id != e.id) }
  | accept (group : EditgroupId) (closedAt acceptedAt : Instant) (writable : s.HasWritable group)
    (takes : s.TakesAll (inApplicationOrder (s.editsOf group))) :
    Change s (.accept group) (s.accepted group closedAt acceptedAt)
  | abandon (group : EditgroupId) (time : Instant) (writable : s.HasWritable group) :
    Change s (.abandon group) (s.closed group .abandoned time)

/-- Changes lead from these tables to those. -/
abbrev Becomes : Store → Store → Prop := Relation.ReflTransGen fun s t => ∃ k, Change s k t

/-- Changes lead from empty tables to these. -/
def Arises (s : Store) : Prop := Becomes .empty s

theorem Arises.becomes {s t : Store} (h : s.Arises) (h' : s.Becomes t) : t.Arises :=
  Relation.ReflTransGen.trans h h'

theorem Change.becomes {s t : Store} {k : Deed} (step : Change s k t) : s.Becomes t :=
  .single ⟨k, step⟩

/-- What holds of empty tables and is preserved by every change holds of all tables that arise. -/
@[elab_as_elim]
theorem Arises.induction {motive : (s : Store) → s.Arises → Prop}
    (empty : motive .empty Relation.ReflTransGen.refl)
    (change : ∀ {s t : Store} {k : Deed} (arises : s.Arises) (step : Change s k t),
      motive s arises → motive t (arises.becomes step.becomes))
    {s : Store} (h : s.Arises) : motive s h := by
  induction h with
  | refl => exact empty
  | tail before step ih =>
    obtain ⟨k, step⟩ := step
    exact change before step ih

/-! ### Keys -/

theorem map_changeWhere {α β : Type} {f : α → β} {test : α → Bool} {change : α → α}
    (h : ∀ x, f (change x) = f x) (rows : List α) :
    (changeWhere test change rows).map f = rows.map f := by
  simp only [changeWhere, List.map_map]
  refine List.map_congr_left fun x _ => ?_
  by_cases hx : test x = true <;> simp [hx, h]

/-- To close an editgroup changes nothing of editors but what they are working on. -/
theorem map_editors_closed {β : Type} {f : Editor → β}
    (same : ∀ e group, f { e with activeEditgroup := group } = f e) (s : Store)
    (group : EditgroupId) (status : EditgroupStatus) (time : Instant) :
    (s.closed group status time).editors.map f = s.editors.map f :=
  map_changeWhere (fun e => same e none) s.editors

theorem map_editors_working {β : Type} {f : Editor → β}
    (same : ∀ e group, f { e with activeEditgroup := group } = f e) (s : Store)
    (editor : EditorId) (group : EditgroupId) :
    (s.working editor group).editors.map f = s.editors.map f :=
  map_changeWhere (fun e => same e (some group)) s.editors

/-- A closed editgroup is as it was but for its status and the time of closing. -/
theorem map_editgroups_closed {β : Type} {f : EditgroupRow → β}
    (same : ∀ g status closedAt, f { g with status, closedAt } = f g) (s : Store)
    (group : EditgroupId) (status : EditgroupStatus) (time : Instant) :
    (s.closed group status time).editgroups.map f = s.editgroups.map f :=
  map_changeWhere (fun g => same g status (some time)) s.editgroups

theorem nodup_map_changeWhere {α β : Type} {f : α → β} {test : α → Bool} {change : α → α}
    {rows : List α} (same : ∀ x, f (change x) = f x) (h : (rows.map f).Nodup) :
    ((changeWhere test change rows).map f).Nodup := by
  rwa [map_changeWhere same]

theorem nodup_map_concat {α β : Type} {f : α → β} {rows : List α} {x : α}
    (h : (rows.map f).Nodup) (new : ∀ y ∈ rows, f y ≠ f x) : ((rows ++ [x]).map f).Nodup := by
  rw [List.map_append, List.nodup_append]
  refine ⟨h, List.nodup_singleton _, ?_⟩
  rintro b hb _ hx rfl
  obtain ⟨y, hy, rfl⟩ := List.mem_map.1 hb
  exact new y hy (List.mem_singleton.1 hx)

/-- Rows are told apart by their keys. -/
structure Keyed (s : Store) : Prop where
  editors : (s.editors.map (·.id)).Nodup
  usernames : (s.editors.map (·.username)).Nodup
  editgroups : (s.editgroups.map (·.id)).Nodup
  revisions : (s.revisions.map (·.id)).Nodup
  identities : (s.identities.map (·.id)).Nodup
  edits : (s.edits.map (·.id)).Nodup
  /-- An editgroup has at most one edit of an identity. -/
  pending : (s.edits.map fun e => (e.editgroup, e.ident)).Nodup

theorem Keyed.closed {s : Store} (h : s.Keyed) (group : EditgroupId) (status : EditgroupStatus)
    (time : Instant) : (s.closed group status time).Keyed where
  editors := nodup_map_changeWhere (fun _ => rfl) h.editors
  usernames := nodup_map_changeWhere (fun _ => rfl) h.usernames
  editgroups := nodup_map_changeWhere (fun _ => rfl) h.editgroups
  revisions := h.revisions
  identities := h.identities
  edits := h.edits
  pending := h.pending

theorem Keyed.written {s : Store} (h : s.Keyed) (edits : List Edit) : (s.written edits).Keyed :=
  { h with identities := (written_ids s edits).symm ▸ h.identities }

theorem Keyed.change {s t : Store} {k : Deed} (h : s.Keyed) (step : Change s k t) : t.Keyed := by
  cases step with
  | editor e _ _ new =>
    exact { h with
      editors := nodup_map_concat h.editors fun f hf => (new f hf).1
      usernames := nodup_map_concat h.usernames fun f hf => (new f hf).2 }
  | editgroup g _ _ _ new => exact { h with editgroups := nodup_map_concat h.editgroups new }
  | activate g _ _ =>
    exact { h with
      editors := nodup_map_changeWhere (fun _ => rfl) h.editors
      usernames := nodup_map_changeWhere (fun _ => rfl) h.usernames }
  | revision body id time _ new =>
    exact { h with revisions := nodup_map_concat h.revisions new }
  | stageNew x e may =>
    exact { h with
      identities := nodup_map_concat h.identities may.unknown
      edits := nodup_map_concat h.edits may.fresh
      pending := nodup_map_concat h.pending may.pending_ne }
  | stage x e may =>
    exact { h with
      edits := nodup_map_concat h.edits may.fresh
      pending := nodup_map_concat h.pending may.pending_ne }
  | remove e _ _ =>
    exact { h with
      edits := h.edits.sublist (List.filter_sublist.map _)
      pending := h.pending.sublist (List.filter_sublist.map _) }
  | accept group closedAt acceptedAt _ _ =>
    exact { (h.written _).closed group .accepted closedAt with }
  | abandon group time _ => exact h.closed group .abandoned time

theorem Arises.keyed {s : Store} (h : s.Arises) : s.Keyed := by
  induction h using Arises.induction with
  | empty => exact ⟨.nil, .nil, .nil, .nil, .nil, .nil, .nil⟩
  | change _ step ih => exact ih.change step

section Keyed
variable {s : Store}

theorem find?_eq_some_iff {α β : Type} [DecidableEq β] {f : α → β} {rows : List α}
    (keyed : (rows.map f).Nodup) {key : β} {x : α} :
    rows.find? (f · == key) = some x ↔ x ∈ rows ∧ f x = key := by
  constructor
  · intro h
    exact ⟨List.mem_of_find?_eq_some h, by simpa using List.find?_some h⟩
  · rintro ⟨hx, rfl⟩
    cases h : rows.find? (f · == f x) with
    | none =>
      rw [List.find?_eq_none] at h
      exact absurd (by simp) (h x hx)
    | some y =>
      have hy : f y = f x := by simpa using List.find?_some h
      rw [List.inj_on_of_nodup_map keyed (List.mem_of_find?_eq_some h) hx hy]

theorem find?_isNone_iff {α β : Type} [DecidableEq β] {f : α → β} {rows : List α} {key : β} :
    (rows.find? (f · == key)).isNone = true ↔ ∀ x ∈ rows, f x ≠ key := by
  rw [Option.isNone_iff_eq_none, List.find?_eq_none]
  simp

theorem find?_isSome_iff {α β : Type} [DecidableEq β] {f : α → β} {rows : List α} {key : β} :
    (rows.find? (f · == key)).isSome = true ↔ ∃ x ∈ rows, f x = key := by
  rw [List.find?_isSome]
  simp

/-- A row is the only one with its key. -/
theorem filter_eq_singleton {α β : Type} [DecidableEq β] {f : α → β} {rows : List α}
    (keyed : (rows.map f).Nodup) {x : α} (hx : x ∈ rows) : rows.filter (f · == f x) = [x] := by
  induction rows with
  | nil => cases hx
  | cons y ys ih =>
    obtain ⟨notMem, rest⟩ := List.nodup_cons.1 keyed
    rcases List.mem_cons.1 hx with rfl | hx
    · have : ys.filter (f · == f x) = [] := by
        rw [List.filter_eq_nil_iff]
        intro z hz same
        exact notMem (List.mem_map.2 ⟨z, hz, by simpa using same⟩)
      simp [this]
    · have : f y ≠ f x := fun same => notMem (List.mem_map.2 ⟨x, hx, same.symm⟩)
      simp [this, ih rest hx]

theorem Keyed.identity?_eq_some (h : s.Keyed) {id : EntityId} {x : Identity} :
    s.identity? id = some x ↔ x ∈ s.identities ∧ x.id = id :=
  find?_eq_some_iff h.identities

theorem Keyed.editgroupRow?_eq_some (h : s.Keyed) {id : EditgroupId} {g : EditgroupRow} :
    s.editgroupRow? id = some g ↔ g ∈ s.editgroups ∧ g.id = id :=
  find?_eq_some_iff h.editgroups

/-- An editgroup can be worked on exactly if it is open and its metadata can be read. -/
theorem Keyed.hasWritable_iff (h : s.Keyed) {group : EditgroupId} :
    s.HasWritable group ↔ s.HasOpen group ∧ s.IsLegible group := by
  constructor
  · rintro ⟨row, hrow, hid, pending, legible⟩
    refine ⟨⟨row, hrow, hid, pending⟩, fun row' hrow' hid' => ?_⟩
    rwa [List.inj_on_of_nodup_map h.editgroups hrow' hrow (hid'.trans hid.symm)]
  · rintro ⟨⟨row, hrow, hid, pending⟩, legible⟩
    exact ⟨row, hrow, hid, pending, legible row hrow hid⟩

theorem Keyed.identity_unique (h : s.Keyed) {x y : Identity} (hx : x ∈ s.identities)
    (hy : y ∈ s.identities) (heq : x.id = y.id) : x = y :=
  List.inj_on_of_nodup_map h.identities hx hy heq

theorem Keyed.editor_unique (h : s.Keyed) {e f : Editor} (he : e ∈ s.editors)
    (hf : f ∈ s.editors) (heq : e.id = f.id) : e = f :=
  List.inj_on_of_nodup_map h.editors he hf heq

theorem Keyed.editgroup_unique (h : s.Keyed) {g g' : EditgroupRow} (hg : g ∈ s.editgroups)
    (hg' : g' ∈ s.editgroups) (heq : g.id = g'.id) : g = g' :=
  List.inj_on_of_nodup_map h.editgroups hg hg' heq

@[simp] theorem mem_editsOf {group : EditgroupId} {e : Edit} :
    e ∈ s.editsOf group ↔ e ∈ s.edits ∧ e.editgroup = group := by
  simp [editsOf]

theorem editsOf_concat_of_ne {e : Edit} {group : EditgroupId} (h : group ≠ e.editgroup) :
    editsOf { s with edits := s.edits ++ [e] } group = s.editsOf group := by
  simp [editsOf, List.filter_append, Ne.symm h]

/-- An edit that is taken out of its editgroup is not missed in another one. -/
theorem Keyed.editsOf_remove_of_ne (h : s.Keyed) {e : Edit} (he : e ∈ s.edits)
    {group : EditgroupId} (hne : group ≠ e.editgroup) :
    editsOf { s with edits := s.edits.filter (·.id != e.id) } group = s.editsOf group := by
  rw [editsOf, editsOf, List.filter_filter]
  refine List.filter_congr fun f hf => ?_
  by_cases same : f.editgroup = group
  · have : f.id ≠ e.id := by
      intro hid
      obtain rfl := List.inj_on_of_nodup_map h.edits hf he hid
      exact hne same.symm
    simp [same, this]
  · simp [same]

/-- The edits of an editgroup are of different identities. -/
theorem Keyed.editsOf_nodup (h : s.Keyed) (group : EditgroupId) :
    ((s.editsOf group).map (·.ident)).Nodup := by
  have sub : ((s.editsOf group).map fun e => (e.editgroup, e.ident)).Nodup :=
    h.pending.sublist (List.filter_sublist.map _)
  have same : (s.editsOf group).map (fun e => (e.editgroup, e.ident)) =
      ((s.editsOf group).map (·.ident)).map (Prod.mk group) := by
    rw [List.map_map]
    refine List.map_congr_left fun e he => ?_
    simp [(mem_editsOf.1 he).2]
  exact (same ▸ sub).of_map _

theorem inApplicationOrder_perm (edits : List Edit) : edits.Perm (inApplicationOrder edits) :=
  ((List.perm_append_comm).trans (by
    simpa using List.filter_append_perm (·.action.isRedirect) edits)).symm

@[simp] theorem mem_inApplicationOrder {edits : List Edit} {e : Edit} :
    e ∈ inApplicationOrder edits ↔ e ∈ edits :=
  (inApplicationOrder_perm edits).mem_iff.symm

theorem Keyed.inApplicationOrder_nodup (h : s.Keyed) (group : EditgroupId) :
    ((inApplicationOrder (s.editsOf group)).map (·.ident)).Nodup :=
  ((inApplicationOrder_perm _).map _).nodup_iff.1 (h.editsOf_nodup group)

end Keyed

end Store

end Biblio
