import Biblio.Proofs.Metadata
import Biblio.Proofs.Refusals

/-! Which edits can be staged, and what staging them does.

    What is asked of a request for an edit is said here without the checks that it goes through: an
    open editgroup, a base that is stored, a new or a live identity, and what the action needs. The
    checks come to just that, whatever their order, as long as the metadata of the editgroup can be
    read, and then the store has nothing to object to. The edit stands behind the other edits of its
    editgroup, and only an edit of a new entity brings an identity with it. -/

namespace Biblio

/-- The edit says of which identity it is. -/
structure Edit.IsOf (e : Edit) (x : Identity) : Prop where
  ident : e.ident = x.id
  kind : e.kind = x.kind
  /-- Without a base the redirect there is stands for it. -/
  previousRedirect : e.previousRedirect = if e.previousRevision = none then x.redirect else none

namespace Store

/-! ### Requests -/

/-- An identity of this kind can be merged into that one: the same editgroup creates it, or it is
    live, was not deleted and does not redirect itself. -/
structure Receives (s : Store) (group : EditgroupId) (kind : EntityKind) (y : Identity) :
    Prop where
  known : y ∈ s.identities
  kind : y.kind = kind
  lands : y.state = .wip ∧
      (∃ e ∈ s.editsOf group, e.ident = y.id ∧ ∃ rev, e.action = .update rev) ∨
    y.isLive = true ∧ y.isDeleted = false ∧ y.redirect = none

/-- The tables have what an action on an identity needs: a revision of the same kind that it brings,
    or another identity that can receive this one. -/
def Supports (s : Store) (group : EditgroupId) (x : Identity) : EditAction → Prop
  | .delete => True
  | .update rev => s.HasRevision rev x.kind
  | .redirect target => target ≠ x.id ∧ ∃ y, y.id = target ∧ s.Receives group x.kind y

/-- An action on a new entity of this kind brings a revision, and it has no base. -/
structure AllowsNew (s : Store) (kind : EntityKind) (previous : Option RevisionId)
    (action : EditAction) : Prop where
  unbased : previous = none
  brings : ∃ rev, action = .update rev ∧ s.HasRevision rev kind

/-- An action on an existing entity is on one that is live and was not deleted, which the editgroup
    has no edit of yet. Where there is a revision a base is named. -/
structure AllowsOn (s : Store) (group : EditgroupId) (x : Identity)
    (previous : Option RevisionId) (action : EditAction) : Prop where
  known : x ∈ s.identities
  live : x.isLive = true
  kept : x.isDeleted = false
  unedited : ∀ e ∈ s.editsOf group, e.ident ≠ x.id
  based : x.revision ≠ none → previous ≠ none
  supports : s.Supports group x action

/-- An action on what a request is about. -/
def Allows (s : Store) (group : EditgroupId) (previous : Option RevisionId)
    (action : EditAction) : EditTarget → Prop
  | .new kind => s.AllowsNew kind previous action
  | .existing id => ∃ x, x.id = id ∧ s.AllowsOn group x previous action

/-- What a request for an edit has to meet. -/
structure Meets (s : Store) (group : EditgroupId) (target : EditTarget)
    (previous : Option RevisionId) (action : EditAction) : Prop where
  /-- The editgroup is there and open. -/
  pending : s.HasOpen group
  /-- A base is a stored revision. -/
  stored : ∀ rev, previous = some rev → ∃ kind, s.HasRevision rev kind
  allows : s.Allows group previous action target

/-- What staging an edit does. -/
structure IsStaged (s t : Store) (group : EditgroupId) (target : EditTarget)
    (previous : Option RevisionId) (action : EditAction) (e : Edit) : Prop where
  editgroup : e.editgroup = group
  previous : e.previousRevision = previous
  action : e.action = action
  /-- The edit is a new one. -/
  fresh : ∀ f ∈ s.edits, f.id ≠ e.id
  listed : t.editsOf group = s.editsOf group ++ [e]
  /-- An existing identity stays as it is; a new entity comes with one that nothing was accepted
      of. -/
  identities : match target with
    | .new kind => ∃ x, t.identities = s.identities ++ [x] ∧ e.IsOf x ∧ x.kind = kind ∧
        x.HasShape .wip ∧ ∀ y ∈ s.identities, y.id ≠ x.id
    | .existing id => ∃ x ∈ s.identities, x.id = id ∧ t.identities = s.identities ∧ e.IsOf x
  /-- Nothing else changes. -/
  rest : t = { s with edits := s.edits ++ [e], identities := t.identities }

/-! ### Checks -/

section Checks
variable {s : Store} {group : EditgroupId} {previous : Option RevisionId} {action : EditAction}

/-- The editgroups that are let through are those that can be worked on. -/
theorem Keyed.requireOpen_iff (keyed : s.Keyed) :
    (∃ header, s.requireOpen group = .ok header) ↔ s.HasWritable group := by
  rcases keyed.requireOpen_cases group with ⟨writable, has⟩ | ⟨⟨err, failed⟩, hasNot⟩
  · exact iff_of_true writable has
  · refine iff_of_false ?_ hasNot
    rintro ⟨header, writable⟩
    cases writable.symm.trans failed

theorem Keyed.checkPrevious_iff (keyed : s.Keyed) :
    s.checkPrevious previous = .ok () ↔
      ∀ rev, previous = some rev → ∃ kind, s.HasRevision rev kind := by
  constructor
  · rintro checked rev rfl
    exact checkPrevious_some checked
  · intro stored
    cases previous with
    | none => rfl
    | some rev =>
      obtain ⟨kind, there⟩ := stored rev rfl
      rw [checkPrevious, keyed.kindOfRevision?_eq_some there]
      rfl

theorem Keyed.checkAction_update_iff (keyed : s.Keyed) {base : EditBase} {rev : RevisionId} :
    s.checkAction group base (.update rev) = .ok () ↔ s.HasRevision rev base.kind := by
  refine ⟨checkAction_update, fun there => ?_⟩
  simp only [checkAction, keyed.kindOfRevision?_eq_some there, found, Except.ok_bind, ne_eq,
    not_true_eq_false, if_false]
  rfl

theorem Keyed.pendingEdit?_eq_some (keyed : s.Keyed) {id : EntityId} {e : Edit} :
    s.pendingEdit? group id = some e ↔ e ∈ s.editsOf group ∧ e.ident = id := by
  have soundness : ∀ {f : Edit}, s.pendingEdit? group id = some f →
      f ∈ s.editsOf group ∧ f.ident = id := by
    intro f h
    have found := List.find?_some h
    rw [Bool.and_eq_true, beq_iff_eq, beq_iff_eq] at found
    exact ⟨mem_editsOf.2 ⟨List.mem_of_find?_eq_some h, found.1⟩, found.2⟩
  refine ⟨soundness, ?_⟩
  rintro ⟨he, rfl⟩
  cases h : s.pendingEdit? group e.ident with
  | none =>
    obtain ⟨he, hgroup⟩ := mem_editsOf.1 he
    exact absurd rfl (pendingEdit?_isNone_iff.1 (Option.isNone_iff_eq_none.2 h) e he hgroup)
  | some f =>
    obtain ⟨hf, same⟩ := soundness h
    rw [List.inj_on_of_nodup_map (keyed.editsOf_nodup group) hf he same]

/-- An editgroup creates an identity exactly when that is not live and has an edit there that brings
    a revision. -/
theorem Arises.createdIn?_iff (arises : s.Arises) {id : EntityId} {kind : EntityKind} :
    s.createdIn? group id = some kind ↔ ∃ y ∈ s.identities, y.id = id ∧ y.kind = kind ∧
      y.isLive = false ∧ ∃ e ∈ s.editsOf group, e.ident = id ∧ ∃ rev, e.action = .update rev := by
  have keyed := arises.keyed
  constructor
  · intro created
    obtain ⟨y, hy, rfl, wip, f, hf, rfl, same, brings, rfl⟩ := createdIn?_eq_some created
    obtain ⟨rev, hrev⟩ := Option.isSome_iff_exists.1 brings
    obtain ⟨z, hz, hid, hkind⟩ := (arises.grounded.edits f hf).ident
    obtain rfl := keyed.identity_unique hz hy (hid.trans same)
    exact ⟨z, hz, rfl, hkind, wip, f, mem_editsOf.2 ⟨hf, rfl⟩, same, rev,
      EditAction.revision?_eq_some.1 hrev⟩
  · rintro ⟨y, hy, rfl, rfl, wip, e, he, same, rev, hact⟩
    have there : s.identity? y.id = some y := keyed.identity?_eq_some.2 ⟨hy, rfl⟩
    have pending : s.pendingEdit? group y.id = some e := keyed.pendingEdit?_eq_some.2 ⟨he, same⟩
    obtain ⟨z, hz, hid, hkind⟩ := (arises.grounded.edits e (mem_editsOf.1 he).1).ident
    obtain rfl := keyed.identity_unique hz hy (hid.trans same)
    simp only [createdIn?, there, wip, pending, Option.filter, hact, EditAction.revision?,
      Option.isSome_some, hkind]
    rfl

/-- What a live identity redirects to is let through exactly when it can receive that. -/
theorem Arises.redirectTargetKind_iff (arises : s.Arises) {x : Identity} (hx : x ∈ s.identities)
    (live : x.isLive = true) {target : EntityId} {kind : EntityKind} :
    s.redirectTargetKind group x.id target = .ok kind ↔
      target ≠ x.id ∧ ∃ y, y.id = target ∧ s.Receives group kind y := by
  have keyed := arises.keyed
  unfold redirectTargetKind
  cases created : s.createdIn? group target with
  | some kind' =>
    obtain ⟨y, hy, rfl, rfl, wip, pending⟩ := arises.createdIn?_iff.1 created
    have apart : y.id ≠ x.id := by
      intro same
      rw [keyed.identity_unique hy hx same, live] at wip
      cases wip
    constructor
    · intro h
      exact ⟨apart, y, rfl, hy, Except.ok.inj h, .inl ⟨Identity.state_eq_wip.2 wip, pending⟩⟩
    · rintro ⟨-, z, same, receives⟩
      obtain rfl := keyed.identity_unique receives.known hy same
      exact congrArg Except.ok receives.kind
  | none =>
    constructor
    · intro h
      obtain ⟨y, hget, apart, live, kept, straight, kind⟩ := checkRedirectTarget_map h
      obtain ⟨hy, hid⟩ := keyed.getIdentity_eq_ok.1 hget
      exact ⟨apart, y, hid, hy, kind, .inr ⟨live, kept, straight⟩⟩
    · rintro ⟨apart, y, rfl, hy, rfl, ⟨wip, pending⟩ | ⟨live, kept, straight⟩⟩
      · have := arises.createdIn?_iff.2
          ⟨y, hy, rfl, rfl, Identity.state_eq_wip.1 wip, pending⟩
        cases created.symm.trans this
      · have there : s.getIdentity y.id = .ok y := keyed.getIdentity_eq_ok.2 ⟨hy, rfl⟩
        rcases checkRedirectTarget_cases x.id there with ⟨ok, -⟩ | ⟨err, -, -, not⟩
        · rw [ok]
          rfl
        · exact absurd ⟨apart, live, kept, straight⟩ not

theorem Arises.checkAction_iff (arises : s.Arises) {x : Identity} (hx : x ∈ s.identities)
    (live : x.isLive = true) (redirect : Option EntityId) :
    s.checkAction group ⟨some x.id, x.kind, redirect⟩ action = .ok () ↔
      s.Supports group x action := by
  cases action with
  | delete => exact iff_of_true rfl trivial
  | update rev => exact arises.keyed.checkAction_update_iff
  | redirect target =>
    simp only [checkAction, Supports]
    rw [← arises.redirectTargetKind_iff hx live, Except.bind_eq_ok]
    constructor
    · rintro ⟨kind, ok, checked⟩
      by_cases same : kind = x.kind
      · rw [ok, same]
      · simp [same] at checked
    · intro ok
      exact ⟨x.kind, ok, by simp⟩

end Checks

/-! ### Staging -/

section Staging
variable {src : Source} {c d : Catalog} {group : EditgroupId} {previous : Option RevisionId}
  {action : EditAction} {e : Edit}

/-- A new edit that refers to what is there is inserted. -/
theorem insertEdit_of_grounds (fresh : ∀ f ∈ c.edits, f.id ≠ e.id)
    (alone : ∀ f ∈ c.edits, f.editgroup = e.editgroup → f.ident ≠ e.ident)
    (grounds : c.Grounds e) :
    insertEdit e src c = (.ok (), c.withStore { c.toStore with edits := c.edits ++ [e] }) := by
  have demanded := grounds.demanded
  simp only [Bool.and_eq_true, and_assoc] at demanded
  exact insertEdit_eq_ok.2 ⟨⟨fresh, alone⟩, demanded, rfl⟩

/-- To stage an edit of a new entity is to allocate an identity and to insert the edit; nothing else
    can fail than what is asked of the request, as long as identifiers are new. -/
theorem Arises.stageEdit_new_eq_ok (arises : c.Arises) {kind : EntityKind} :
    stageEdit group (.new kind) previous action src c = (.ok e, d) ↔
      c.HasWritable group ∧ c.AllowsNew kind previous action ∧
        (∀ y ∈ c.identities, y.id ≠ ⟨src.id c.drawn⟩) ∧
        (∀ f ∈ c.edits, f.id ≠ ⟨src.id (c.drawn + 1)⟩) ∧
        e = ⟨⟨src.id (c.drawn + 1)⟩, group, ⟨src.id c.drawn⟩, kind, none, none, action,
          src.time (c.ticks + 1)⟩ ∧
        d = { c with
          identities := c.identities ++ [newIdentity kind ⟨src.id c.drawn⟩ (src.time c.ticks)]
          edits := c.edits ++ [e]
          drawn := c.drawn + 2
          ticks := c.ticks + 2 } := by
  have keyed := arises.keyed
  simp only [stageEdit, look_bind_eq_ok]
  constructor
  · rintro ⟨header, writable, base, hbase, _, checked, _, -, h⟩
    obtain ⟨brings, rfl, rfl⟩ := newBase_eq_ok.1 hbase
    obtain ⟨rev, hrev⟩ := Option.isSome_iff_exists.1 brings
    obtain rfl := EditAction.revision?_eq_some.1 hrev
    obtain ⟨id, _, allocated, h⟩ := Write.bind_eq_ok.1 h
    obtain ⟨unknown, rfl, rfl⟩ := allocate_eq_ok.1 allocated
    obtain ⟨rfl, _, inserted⟩ := insertNewEdit_eq_ok.1 h
    obtain ⟨⟨fresh, -⟩, -, rfl⟩ := insertEdit_eq_ok.1 inserted
    exact ⟨keyed.requireOpen_eq_ok writable,
      ⟨rfl, rev, rfl, keyed.checkAction_update_iff.1 checked⟩, unknown, fresh, rfl, rfl⟩
  · rintro ⟨writable, ⟨rfl, rev, rfl, brings⟩, unknown, fresh, rfl, rfl⟩
    obtain ⟨header, hheader⟩ := keyed.requireOpen_iff.2 writable
    have hbase : newBase kind none (.update rev) = .ok ⟨none, kind, none⟩ :=
      newBase_eq_ok.2 ⟨rfl, rfl, rfl⟩
    have checked : c.checkAction group ⟨none, kind, none⟩ (.update rev) = .ok () :=
      keyed.checkAction_update_iff.2 brings
    refine ⟨header, hheader, _, hbase, (), checked, (), rfl, ?_⟩
    refine Write.bind_eq_ok.2 ⟨_, _, allocate_eq_ok.2 ⟨unknown, rfl, rfl⟩, ?_⟩
    refine insertNewEdit_eq_ok.2 ⟨rfl, (), ?_⟩
    -- an identity that is new has no edit in the editgroup
    have alone : ∀ f ∈ c.edits, f.editgroup = group → f.ident ≠ ⟨src.id c.drawn⟩ := by
      intro f hf _ same
      obtain ⟨y, hy, hid⟩ := arises.knows_ident hf
      exact unknown y hy (hid.trans same)
    have may := keyed.mayStageNew hheader hbase checked unknown fresh alone (src.time c.ticks)
      (src.time (c.ticks + 1))
    exact insertEdit_of_grounds fresh alone (keeps_edits.grounds may.grounds)

/-- To stage an edit of an existing entity is to insert it; nothing else can fail than what is asked
    of the request, as long as identifiers are new. -/
theorem Arises.stageEdit_existing_eq_ok (arises : c.Arises) {id : EntityId} :
    stageEdit group (.existing id) previous action src c = (.ok e, d) ↔
      c.HasWritable group ∧ (∀ rev, previous = some rev → ∃ kind, c.HasRevision rev kind) ∧
        (∀ f ∈ c.edits, f.id ≠ ⟨src.id c.drawn⟩) ∧
        ∃ x, x.id = id ∧ c.AllowsOn group x previous action ∧
          e = ⟨⟨src.id c.drawn⟩, group, x.id, x.kind, previous,
            if previous = none then x.redirect else none, action, src.time c.ticks⟩ ∧
          d = { c with
            edits := c.edits ++ [e]
            drawn := c.drawn + 1
            ticks := c.ticks + 1 } := by
  have keyed := arises.keyed
  simp only [stageEdit, look_bind_eq_ok]
  constructor
  · rintro ⟨header, writable, base, hbase, _, checked, _, based, h⟩
    obtain ⟨x, hx, kept, live, unstaged, named, rfl⟩ := existingBase_eq_ok.1 hbase
    obtain ⟨there, rfl⟩ := keyed.identity?_eq_some.1 hx
    obtain ⟨id, _, hid, h⟩ := Write.bind_eq_ok.1 h
    obtain ⟨rfl, rfl⟩ := Write.pure_eq_ok.1 hid
    obtain ⟨rfl, _, inserted⟩ := insertNewEdit_eq_ok.1 h
    obtain ⟨⟨fresh, -⟩, -, rfl⟩ := insertEdit_eq_ok.1 inserted
    have unedited := pendingEdit?_isNone_iff.1 (Option.isNone_iff_eq_none.2 unstaged)
    refine ⟨keyed.requireOpen_eq_ok writable, keyed.checkPrevious_iff.1 based, fresh, x, rfl, ?_,
      ?_, rfl⟩
    · exact {
        known := there
        live := live
        kept := kept
        unedited := fun e he => unedited e (mem_editsOf.1 he).1 (mem_editsOf.1 he).2
        based := by simpa [Option.isSome_iff_ne_none] using named
        supports := (arises.checkAction_iff there live _).1 checked }
    · simp [Option.isNone_iff_eq_none]
  · rintro ⟨writable, stored, fresh, x, rfl, allowed, rfl, rfl⟩
    obtain ⟨header, hheader⟩ := keyed.requireOpen_iff.2 writable
    have alone : ∀ f ∈ c.edits, f.editgroup = group → f.ident ≠ x.id :=
      fun f hf hgroup => allowed.unedited f (mem_editsOf.2 ⟨hf, hgroup⟩)
    have unstaged : c.pendingEdit? group x.id = none :=
      Option.isNone_iff_eq_none.1 (pendingEdit?_isNone_iff.2 alone)
    have named : x.revision.isSome = true → previous.isSome = true := by
      simpa [Option.isSome_iff_ne_none] using allowed.based
    have hbase : c.existingBase group x.id previous =
        .ok ⟨some x.id, x.kind, if previous.isNone then x.redirect else none⟩ :=
      existingBase_eq_ok.2 ⟨x, keyed.identity?_eq_some.2 ⟨allowed.known, rfl⟩, allowed.kept,
        allowed.live, unstaged, named, rfl⟩
    have checked := (arises.checkAction_iff allowed.known allowed.live
      (if previous.isNone then x.redirect else none)).2 allowed.supports
    have based := keyed.checkPrevious_iff.2 stored
    refine ⟨header, hheader, _, hbase, (), checked, (), based, ?_⟩
    refine Write.bind_eq_ok.2 ⟨x.id, c, Write.pure_eq_ok.2 ⟨rfl, rfl⟩, ?_⟩
    refine insertNewEdit_eq_ok.2 ⟨by simp [Option.isNone_iff_eq_none], (), ?_⟩
    obtain ⟨y, -, may⟩ := keyed.mayStageOn hheader hbase checked based fresh (src.time c.ticks)
    have grounds := may.grounds arises.grounded
    simp only [Option.isNone_iff_eq_none] at grounds
    exact insertEdit_of_grounds fresh alone grounds

theorem Arises.isStaged_new (arises : c.Arises) {kind : EntityKind}
    (ok : stageEdit group (.new kind) previous action src c = (.ok e, d)) :
    IsStaged c.toStore d.toStore group (.new kind) previous action e := by
  obtain ⟨-, allowed, unknown, fresh, rfl, rfl⟩ := arises.stageEdit_new_eq_ok.1 ok
  constructor
  case identities =>
    exact ⟨newIdentity kind ⟨src.id c.drawn⟩ (src.time c.ticks), rfl, ⟨rfl, rfl, rfl⟩, rfl,
      ⟨rfl, rfl, rfl, rfl⟩, unknown⟩
  case listed => simp [editsOf]
  case previous => exact allowed.unbased.symm
  case fresh => exact fresh
  all_goals rfl

theorem Arises.isStaged_existing (arises : c.Arises) {id : EntityId}
    (ok : stageEdit group (.existing id) previous action src c = (.ok e, d)) :
    IsStaged c.toStore d.toStore group (.existing id) previous action e := by
  obtain ⟨-, -, fresh, x, rfl, allowed, rfl, rfl⟩ := arises.stageEdit_existing_eq_ok.1 ok
  constructor
  case identities => exact ⟨x, allowed.known, rfl, rfl, rfl, rfl, rfl⟩
  case listed => simp [editsOf]
  case fresh => exact fresh
  all_goals rfl

/-- A request is granted exactly when it meets what is asked of it and the editgroup can be read, as
    long as identifiers are new. -/
theorem Arises.stageEdit_iff_meets (arises : c.Arises) (new : c.IsNew (src.id c.drawn))
    (next : c.IsNew (src.id (c.drawn + 1))) (group : EditgroupId) (target : EditTarget)
    (previous : Option RevisionId) (action : EditAction) :
    (∃ e d, stageEdit group target previous action src c = (.ok e, d)) ↔
      c.IsLegible group ∧ c.Meets group target previous action := by
  have works : c.HasWritable group ↔ c.HasOpen group ∧ c.IsLegible group :=
    arises.keyed.hasWritable_iff
  cases target with
  | new kind =>
    constructor
    · rintro ⟨e, d, ok⟩
      obtain ⟨writable, allowed, -⟩ := arises.stageEdit_new_eq_ok.1 ok
      obtain ⟨pending, legible⟩ := works.1 writable
      exact ⟨legible, pending, fun rev hrev => absurd hrev (by simp [allowed.unbased]), allowed⟩
    · rintro ⟨legible, pending, -, allowed⟩
      have unknown := find?_isNone_iff.1 new.identity
      have fresh := find?_isNone_iff.1 next.edit
      exact ⟨_, _, arises.stageEdit_new_eq_ok.2
        ⟨works.2 ⟨pending, legible⟩, allowed, unknown, fresh, rfl, rfl⟩⟩
  | existing id =>
    constructor
    · rintro ⟨e, d, ok⟩
      obtain ⟨writable, stored, -, x, hid, allowed, -⟩ := arises.stageEdit_existing_eq_ok.1 ok
      obtain ⟨pending, legible⟩ := works.1 writable
      exact ⟨legible, pending, stored, x, hid, allowed⟩
    · rintro ⟨legible, pending, stored, x, hid, allowed⟩
      have fresh := find?_isNone_iff.1 new.edit
      exact ⟨_, _, arises.stageEdit_existing_eq_ok.2
        ⟨works.2 ⟨pending, legible⟩, stored, fresh, x, hid, allowed, rfl, rfl⟩⟩

/-- What staging an edit does. -/
theorem Arises.isStaged (arises : c.Arises) {target : EditTarget}
    (ok : stageEdit group target previous action src c = (.ok e, d)) :
    IsStaged c.toStore d.toStore group target previous action e := by
  cases target with
  | new kind => exact arises.isStaged_new ok
  | existing id => exact arises.isStaged_existing ok

end Staging

end Store

namespace Catalog

/-- An edit is staged exactly when the request meets what is asked of it and the metadata of the
    editgroup can be read. Then it is the last one of its editgroup, it says what the request says,
    and nothing else changes but that a new entity comes with an identity that nothing was accepted
    of; otherwise nothing changes. An editgroup that cannot be read takes no edit at all. -/
theorem Reachable.edit_is_staged_iff_request_meets {src : Source} {c : Catalog}
    (h : Reachable src c) (fresh : src.IsFresh (c.drawn + 2)) (group : EditgroupId)
    (target : EditTarget) (previous : Option RevisionId) (action : EditAction) :
    ((∃ e, (Operation.stageEdit group target previous action).answer src c = .ok e) ↔
        c.IsLegible group ∧ c.Meets group target previous action) ∧
      (∀ e, (Operation.stageEdit group target previous action).answer src c = .ok e →
        Store.IsStaged c.toStore
          ((Operation.stageEdit group target previous action).after src c).toStore group target
          previous action e) ∧
      (∀ err, (Operation.stageEdit group target previous action).answer src c = .error err →
        ((Operation.stageEdit group target previous action).after src c).toStore = c.toStore) ∧
      (¬c.IsLegible group →
        (Operation.stageEdit group target previous action).answer src c =
          .error (.storage .undecodable)) := by
  have arises := h.arises
  have new := h.isDrawn.isNew_of_le (Nat.le_refl _) (fresh.mono (by omega))
  have next := h.isDrawn.isNew_of_le (Nat.le_succ _) fresh
  have granted := arises.stageEdit_iff_meets new next group target previous action
  refine ⟨?_, fun e ok => ?_, fun err failed => Write.run_error failed, fun illegible =>
    arises.keyed.stageEdit_of_not_isLegible illegible target previous action src⟩
  · rw [← granted]
    constructor
    · rintro ⟨e, ok⟩
      exact ⟨e, _, Write.run_eq_ok.1 (Prod.ext ok rfl)⟩
    · rintro ⟨e, d, ok⟩
      exact ⟨e, congrArg Prod.fst (Write.run_eq_ok.2 ok)⟩
  · exact arises.isStaged (Write.run_eq_ok.1 (Prod.ext ok rfl))

/-- Two works, and an open editgroup that creates a third one. -/
def sketched : Catalog := Catalog.empty.play .counting [
  ⟨.createEditor "someone"⟩, ⟨.autoaccept (.nth 0) (.work {})⟩, ⟨.autoaccept (.nth 0) (.work {})⟩,
  ⟨.createEditgroup (.nth 0) none .empty⟩, ⟨.createEntity (.nth 9) (.work {})⟩]

/-- The request to merge the first of the works into another one. -/
def mergeInto (target : EntityId) : Operation Edit :=
  .stageEdit (.nth 9) (.existing (.nth 3)) (some (.nth 2)) (.redirect target)

/-- A work can be merged into the one that the editgroup creates, but not into itself. -/
theorem sketched_edit_is_staged_iff_request_meets :
    (sketched.Meets (.nth 9) (.existing (.nth 3)) (some (.nth 2)) (.redirect (.nth 11)) ∧
      ∃ e, Store.IsStaged sketched.toStore
        ((mergeInto (.nth 11)).after .counting sketched).toStore (.nth 9) (.existing (.nth 3))
        (some (.nth 2)) (.redirect (.nth 11)) e) ∧
      ¬sketched.Meets (.nth 9) (.existing (.nth 3)) (some (.nth 2)) (.redirect (.nth 3)) ∧
      ((mergeInto (.nth 3)).after .counting sketched).toStore = sketched.toStore := by
  have reachable : Reachable .counting sketched := leads_play ..
  have fresh : Source.counting.IsFresh (sketched.drawn + 2) :=
    Source.counting_isFresh (by decide +kernel)
  have answers : ((mergeInto (.nth 11)).answer .counting sketched).isOk = true := by
    decide +kernel
  have failed : (mergeInto (.nth 3)).answer .counting sketched =
      .error (.redirectChain (.toItself (.nth 3))) := by decide +kernel
  obtain ⟨granted, staged, -⟩ := reachable.edit_is_staged_iff_request_meets fresh (.nth 9)
    (.existing (.nth 3)) (some (.nth 2)) (.redirect (.nth 11))
  obtain ⟨granted', -, same, -⟩ := reachable.edit_is_staged_iff_request_meets fresh (.nth 9)
    (.existing (.nth 3)) (some (.nth 2)) (.redirect (.nth 3))
  cases answer : (mergeInto (.nth 11)).answer .counting sketched with
  | error err =>
    rw [answer] at answers
    cases answers
  | ok e =>
    have legible := (granted.1 ⟨e, answer⟩).1
    refine ⟨⟨(granted.1 ⟨e, answer⟩).2, e, staged e answer⟩, fun meets => ?_, same _ failed⟩
    obtain ⟨e', ok'⟩ := granted'.2 ⟨legible, meets⟩
    cases failed.symm.trans ok'

/-- A request for a new work meets what is asked of it, but it is not granted in an open editgroup
    whose metadata nests too deeply. -/
theorem deepDrawer_takes_no_edit :
    Reachable .counting deepDrawer ∧
      deepDrawer.Meets (.nth 2) (.new .work) none (.update (.nth 1)) ∧
      (Operation.stageEdit (.nth 2) (.new .work) none (.update (.nth 1))).answer .counting
        deepDrawer = .error (.storage .undecodable) := by
  have reachable : Reachable .counting deepDrawer := leads_play ..
  have stored : ∃ r ∈ deepDrawer.revisions, r.id = .nth 1 ∧ r.kind = .work := by decide +kernel
  refine ⟨reachable, ⟨deepDrawer_hasOpen, fun rev hrev => (nomatch hrev), rfl, .nth 1, rfl, stored⟩,
    reachable.arises.keyed.stageEdit_of_not_isLegible deepDrawer_not_isLegible _ _ _ _⟩

end Catalog

end Biblio
