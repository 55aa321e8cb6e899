import Biblio.Proofs.Operations

/-! What operations leave alone.

    An operation on an editgroup leaves all other editgroups and their edits as they are. Nothing
    but acceptance changes an identity that is there, or the changelog; acceptance changes the
    identities that its editgroup has edits of, and appends the entry that it answers. -/

namespace Biblio

namespace Operation

/-- The editgroup that an operation is about: the one it names, or the one of the edit it names. -/
def group? {α : Type} (op : Operation α) (s : Store) : Option EditgroupId :=
  match op with
  | stageEdit group _ _ _ => some group
  | removeEdit id => (s.edit? id).map (·.editgroup)
  | accept group => some group
  | abandon group => some group
  | createEntity group _ => some group
  | updateEntity group _ _ => some group
  | deleteEntity group _ => some group
  | redirectEntity group _ _ => some group
  | openCatalog _ | createEditor _ | activeEditgroup _ | createEditgroup _ _ _ | createRevision _
  | autoaccept _ _ => none

/-- The editgroup that an operation is to accept. -/
def accepted? {α : Type} : Operation α → Option EditgroupId
  | accept group => some group
  | _ => none

/-- The changelog entry of an operation that accepts an editgroup. -/
def entry? {α : Type} (op : Operation α) (src : Source) (c : Catalog) : Option ChangelogEntry :=
  match op with
  | accept group => ((accept group).answer src c).toOption
  | autoaccept editor body => ((autoaccept editor body).answer src c).toOption.map (·.2)
  | _ => none

/-- The operation accepts nothing. -/
def Stages {α : Type} : Operation α → Prop
  | accept _ => False
  | autoaccept _ _ => False
  | _ => True

theorem group?_of_accepted? {α : Type} {op : Operation α} {group : EditgroupId}
    (h : op.accepted? = some group) (s : Store) : op.group? s = some group := by
  cases op <;> first | exact h | cases h

end Operation

/-- The editgroup that a deed is about, if it is about one that is there. -/
def Deed.group? : Deed → Option EditgroupId
  | stageNew _ e | stage _ e | remove e => some e.editgroup
  | accept group | abandon group => some group
  | editor _ | editgroup _ | activate _ | revision _ => none

namespace Operation

/-- Where an operation allocates identities: in the editgroup that it is about, or if it is about
    none, in one that it makes. -/
def AllocatesIn {α : Type} (op : Operation α) (s : Store) (group : EditgroupId) : Prop :=
  match op.group? s with
  | some g => group = g
  | none => ∀ g ∈ s.editgroups, g.id ≠ group

section May
variable {α : Type} {op : Operation α} {s : Store} {k : Deed}

/-- All that an operation does is done there. -/
theorem May.allocatesIn (may : op.May s k) {group : EditgroupId} (about : k.group? = some group) :
    op.AllocatesIn s group := by
  cases op with
  | stageEdit g target => cases target <;> grind [May, AllocatesIn, group?, Deed.group?]
  | _ => grind [May, AllocatesIn, group?, Deed.group?]

theorem May.ne_accept (may : op.May s k) (stages : op.Stages) (group : EditgroupId) :
    k ≠ .accept group := by
  cases op with
  | stageEdit g target => cases target <;> grind [May]
  | _ => grind [May, Stages]

theorem not_allocatesIn {g : EditgroupRow} (hg : g ∈ s.editgroups)
    (other : op.group? s ≠ some g.id) : ¬op.AllocatesIn s g.id := by
  intro here
  unfold AllocatesIn at here
  split at here <;> rename_i named
  · exact other (named.trans (congrArg some here.symm))
  · exact here g hg rfl

end May

end Operation

namespace Store

/-! ### What is left alone -/

/-- All editgroups but these are as they were, and so are their edits. -/
structure SparesGroups (these : EditgroupId → Prop) (s t : Store) : Prop where
  editgroups : ∀ g ∈ s.editgroups, ¬these g.id → g ∈ t.editgroups
  edits : ∀ g ∈ s.editgroups, ¬these g.id → t.editsOf g.id = s.editsOf g.id

/-- Nothing was accepted: identities stay as they are, and the changelog does. -/
structure Stages (s t : Store) : Prop where
  changelog : t.changelog = s.changelog
  identities : ∀ x ∈ s.identities, x ∈ t.identities

/-- Besides, only edits of new identities were staged. -/
structure StagesNew (s t : Store) : Prop extends Stages s t where
  edited : ∀ e ∈ t.edits, e ∈ s.edits ∨ ∀ x ∈ s.identities, x.id ≠ e.ident

section Relations
variable {these those : EditgroupId → Prop} {group : EditgroupId} {s t : Store} {k : Deed}

instance : Std.Refl (SparesGroups these) where
  refl _ := ⟨fun _ hg _ => hg, fun _ _ _ => rfl⟩

instance : IsTrans Store (SparesGroups these) where
  trans _ _ _ h h' :=
    ⟨fun g hg other => h'.editgroups g (h.editgroups g hg other) other,
      fun g hg other =>
        (h'.edits g (h.editgroups g hg other) other).trans (h.edits g hg other)⟩

instance : Std.Refl Stages where
  refl _ := ⟨rfl, fun _ hx => hx⟩

instance : IsTrans Store Stages where
  trans _ _ _ h h' :=
    ⟨h'.changelog.trans h.changelog, fun x hx => h'.identities x (h.identities x hx)⟩

instance : Std.Refl StagesNew where
  refl s := { (Std.Refl.refl s : s.Stages s) with edited := fun _ he => .inl he }

instance : IsTrans Store StagesNew where
  trans s t u h h' :=
    { (IsTrans.trans s t u h.toStages h'.toStages : s.Stages u) with
      edited := fun e he => by
        rcases h'.edited e he with he | new
        · exact h.edited e he
        · exact .inr fun x hx => new x (h.identities x hx) }

theorem SparesGroups.mono (h : s.SparesGroups these t) (more : ∀ group, these group → those group) :
    s.SparesGroups those t where
  editgroups g hg other := h.editgroups g hg (mt (more g.id) other)
  edits g hg other := h.edits g hg (mt (more g.id) other)

/-- A deed is about one editgroup at most. -/
theorem Change.sparesGroups (keyed : s.Keyed) (step : Change s k t) :
    s.SparesGroups (k.group? = some ·) t := by
  have closed : ∀ (group : EditgroupId) (status : EditgroupStatus) (time : Instant),
      ∀ g ∈ s.editgroups, some group ≠ some g.id → g ∈ (s.closed group status time).editgroups :=
    fun group status time g hg other =>
      mem_closed_editgroups.2 (.inl ⟨hg, fun same => other (congrArg some same.symm)⟩)
  cases step with
  | editgroup g _ _ _ _ _ => exact ⟨fun _ hg _ => List.mem_append_left _ hg, fun _ _ _ => rfl⟩
  | stageNew x e _ | stage x e _ =>
    refine ⟨fun _ hg _ => hg, fun g _ other => editsOf_concat_of_ne fun same => other ?_⟩
    exact congrArg some same.symm
  | remove e staged _ =>
    refine ⟨fun _ hg _ => hg, fun g _ other => keyed.editsOf_remove_of_ne staged fun same => ?_⟩
    exact other (congrArg some same.symm)
  | accept group closedAt _ _ _ => exact ⟨closed group .accepted closedAt, fun _ _ _ => rfl⟩
  | abandon group time _ => exact ⟨closed group .abandoned time, fun _ _ _ => rfl⟩
  | _ => exact ⟨fun _ hg _ => hg, fun _ _ _ => rfl⟩

/-- Nothing but acceptance changes identities or the changelog. -/
theorem Change.stages (step : Change s k t) (other : ∀ group, k ≠ .accept group) :
    s.Stages t := by
  cases step with
  | stageNew x e _ => exact ⟨rfl, fun _ hx => List.mem_append_left _ hx⟩
  | accept group _ _ _ _ => exact absurd rfl (other group)
  | _ => exact ⟨rfl, fun _ hx => hx⟩

theorem Change.stagesNew (step : Change s k t) (kind : k.BeginsIn group) : s.StagesNew t := by
  refine { step.stages (by grind) with edited := ?_ }
  cases step with
  | stageNew x e may =>
    refine List.forall_mem_append.2 ⟨fun f hf => .inl hf, List.forall_mem_singleton.2 (.inr ?_)⟩
    exact fun y hy => may.ident ▸ may.unknown y hy
  | editgroup _ _ _ _ _ _ | revision _ _ _ _ _ => exact fun _ he => .inl he
  | _ => grind

end Relations

/-! ### Operations -/

section Operations
variable {α : Type} {src : Source} {c : Catalog}

/-- An operation is about one editgroup at most: all others are as they were, and so are their
    edits. -/
theorem Arises.after_sparesGroups (arises : c.Arises) (src : Source) (op : Operation α) :
    c.SparesGroups (op.AllocatesIn c.toStore) (op.after src c).toStore :=
  (arises.after_leadsBy src op).related arises fun arises may step =>
    (step.sparesGroups arises.keyed).mono fun _ => may.allocatesIn

/-- Whatever is not acceptance accepts nothing. -/
theorem Arises.after_stages (arises : c.Arises) (src : Source) (op : Operation α)
    (stages : op.Stages) : c.Stages (op.after src c).toStore :=
  (arises.after_leadsBy src op).related arises fun _ may step => step.stages (may.ne_accept stages)

/-- An entity is staged in an editgroup that there was not, and this is accepted; or nothing is. -/
theorem Arises.autoaccept_stages (arises : c.Arises) (src : Source) (editor : EditorId)
    (body : EntityBody) :
    (∃ (err : CatalogError) (t : Catalog), autoaccept editor body src c = (.error err, t) ∧
        c.Stages t.toStore) ∨
      ∃ (group : EditgroupId) (d : Catalog) (id : EntityId), (∀ g ∈ c.editgroups, g.id ≠ group) ∧
        c.StagesNew d.toStore ∧ autoaccept editor body src c =
          (.ok (id, ⟨d.nextSeq, group, src.time (d.ticks + 1)⟩), d.accepting src group) := by
  rcases arises.autoaccept_cases src editor body with ⟨err, d, heq, same, -⟩ |
    ⟨group, d, new, begins, rest⟩
  · exact .inl ⟨err, d, heq, same ▸ Std.Refl.refl _⟩
  have staged := begins.related arises fun _ kind step => step.stagesNew kind
  rcases rest with ⟨id, _, heq, rfl, -⟩ | ⟨err, t, heq, abandons⟩
  · exact .inr ⟨group, d, id, new, staged, heq⟩
  · have closed : d.Stages t.toStore :=
      abandons.related (arises.becomes begins.becomes) fun _ kind step => step.stages (by grind)
    exact .inl ⟨err, t, heq, IsTrans.trans _ _ _ staged.toStages closed⟩

/-- The changelog is carried on by what is accepted, and by nothing else. -/
theorem Arises.after_changelog (arises : c.Arises) (src : Source) (op : Operation α) :
    (op.after src c).changelog = c.changelog ++ (op.entry? src c).toList := by
  cases op with
  | accept group =>
    rcases arises.answer_accept src group with ⟨ok, after, -⟩ | ⟨err, error, same, -⟩
    · simp only [Operation.entry?, ok, after]
      rfl
    · simp only [Operation.entry?, error, same, Except.toOption, Option.toList_none,
        List.append_nil]
  | autoaccept editor body =>
    simp only [Operation.entry?, Operation.answer, Operation.after, Operation.perform]
    rcases arises.autoaccept_stages src editor body with ⟨err, t, heq, stages⟩ |
      ⟨group, d, id, new, staged, heq⟩
    · simp [heq, stages.changelog, Except.toOption]
    · rw [heq, ← staged.changelog]
      rfl
  | _ =>
    exact (arises.after_stages src _ (by trivial)).changelog.trans (List.append_nil _).symm

/-- An identity of which no edit is accepted stays as it is. -/
theorem Arises.after_identity (arises : c.Arises) (src : Source) (op : Operation α) {x : Identity}
    (hx : x ∈ c.identities)
    (unedited : ∀ group, op.accepted? = some group → ∀ e ∈ c.editsOf group, e.ident ≠ x.id) :
    x ∈ (op.after src c).identities := by
  have accepted : ∀ {s : Store} {group : EditgroupId} {closedAt acceptedAt : Instant},
      x ∈ s.identities → (∀ e ∈ s.editsOf group, e.ident ≠ x.id) →
        x ∈ (s.accepted group closedAt acceptedAt).identities := fun hx others =>
    List.mem_map.2 ⟨x, hx, Identity.under_of_forall_ne fun e he =>
      others e (mem_inApplicationOrder.1 he)⟩
  cases op with
  | accept group =>
    rcases arises.answer_accept src group with ⟨-, after, -⟩ | ⟨err, -, same, -⟩
    · rw [after]
      exact accepted hx (unedited group rfl)
    · exact same ▸ hx
  | autoaccept editor body =>
    change x ∈ (autoaccept editor body src c).2.identities
    rcases arises.autoaccept_stages src editor body with ⟨err, t, heq, stages⟩ |
      ⟨group, d, id, new, staged, heq⟩
    · rw [heq]
      exact stages.identities x hx
    · rw [heq]
      refine accepted (staged.identities x hx) fun e he => ?_
      obtain ⟨he, hgroup⟩ := mem_editsOf.1 he
      rcases staged.edited e he with old | fresh
      · obtain ⟨g, hg, hid, -⟩ := (arises.grounded.edits e old).editgroup
        exact absurd (hid.trans hgroup) (new g hg)
      · exact (fresh x hx).symm
  | _ => exact (arises.after_stages src _ (by trivial)).identities x hx

/-- An operation on an editgroup that fails changes nothing. -/
theorem after_of_error (op : Operation α) {group : EditgroupId} {err : CatalogError}
    (named : op.group? c.toStore = some group) (failed : op.answer src c = .error err) :
    (op.after src c).toStore = c.toStore := by
  cases op with
  | autoaccept editor body => cases named
  | _ => exact Write.run_error failed

end Operations

end Store

end Biblio
