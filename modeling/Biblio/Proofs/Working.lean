import Biblio.Proofs.Publication

/-! Who works on which editgroup.

    An editor takes up an editgroup by asking for the one to work on, and stops when that is
    accepted or abandoned. No other operation changes who works on what: whatever is staged, made or
    refused leaves editors and open editgroups as they are. -/

namespace Biblio

/-- The editgroup that an operation is to accept or to abandon. -/
def Operation.closing? {α : Type} : Operation α → Option EditgroupId
  | accept group | abandon group => some group
  | _ => none

/-- The editgroup is accepted or abandoned. -/
def Operation.Closes {α : Type} (op : Operation α) (src : Source) (c : Catalog)
    (group : EditgroupId) : Prop :=
  op.closing? = some group ∧ ∃ a, op.answer src c = .ok a

/-- With the deed no editgroup is taken up or closed. -/
def Deed.IsIdle : Deed → Prop
  | activate _ | accept _ | abandon _ => False
  | editor _ | editgroup _ | revision _ | stageNew _ _ | stage _ _ | remove _ => True

namespace Store

/-- Nobody takes up an editgroup, and nobody stops who does not work on the one that is closed. -/
structure Minds (closing : Option EditgroupId) (s t : Store) : Prop where
  editors : ∀ e ∈ s.editors, closing = none ∨ e.activeEditgroup ≠ closing → e ∈ t.editors
  working : ∀ e ∈ t.editors, e.activeEditgroup ≠ none → e ∈ s.editors

section Relation
variable {closing : Option EditgroupId} {s t : Store}

instance : Std.Refl (Minds closing) where
  refl _ := ⟨fun _ he _ => he, fun _ he _ => he⟩

instance : IsTrans Store (Minds closing) where
  trans _ _ _ h h' :=
    ⟨fun e he other => h'.editors e (h.editors e he other) other,
      fun e he works => h.working e (h'.working e he works) works⟩

theorem Minds.of_eq (editors : t.editors = s.editors) : s.Minds closing t :=
  ⟨fun _ he _ => editors ▸ he, fun _ he _ => editors ▸ he⟩

/-- Where an editgroup is closed only those stop who work on it. -/
theorem minds_closed (s : Store) (group : EditgroupId) (status : EditgroupStatus)
    (time : Instant) : s.Minds (some group) (s.closed group status time) where
  editors e he other := by
    have apart : e.activeEditgroup ≠ some group := other.resolve_left (by simp)
    exact List.mem_map.2 ⟨e, he, if_neg (by simpa using apart)⟩
  working e he works := by
    obtain ⟨f, hf, rfl⟩ := List.mem_map.1 he
    by_cases here : f.activeEditgroup = some group
    · simp [here] at works
    · simpa [here] using hf

/-- A deed has nothing to do with who works on what, unless an editgroup is taken up or closed. -/
theorem Change.minds {k : Deed} (step : Change s k t) (idle : k.IsIdle) : s.Minds none t := by
  cases step with
  | editor e _ free _ =>
    refine ⟨fun f hf _ => List.mem_append_left _ hf, List.forall_mem_append.2
      ⟨fun f hf _ => hf, List.forall_mem_singleton.2 fun works => absurd free works⟩⟩
  | activate _ _ _ | accept _ _ _ _ _ | abandon _ _ _ => exact idle.elim
  | _ => exact .of_eq rfl

end Relation

/-! ### Operations -/

section Operations
variable {α : Type} {src : Source} {s : Store} {c : Catalog} {e : Editor} {group : EditgroupId}

/-- What does not ask for an editgroup to work on changes nothing of who works on what, but that an
    editgroup is closed. -/
theorem Arises.after_minds (arises : c.Arises) (src : Source) (op : Operation α)
    (other : ∀ editor, (⟨op⟩ : Event) ≠ ⟨.activeEditgroup editor⟩) :
    c.Minds none (op.after src c).toStore ∨
      ∃ group, op.Closes src c group ∧ c.Minds (some group) (op.after src c).toStore := by
  cases op with
  | activeEditgroup editor => exact absurd rfl (other editor)
  | accept group =>
    rcases arises.answer_accept src group with ⟨ok, after, -⟩ | ⟨err, -, same, -⟩
    · refine .inr ⟨group, ⟨rfl, _, ok⟩, ?_⟩
      rw [after]
      have closed := minds_closed c.toStore group .accepted (src.time c.ticks)
      exact ⟨closed.editors, closed.working⟩
    · exact .inl (same ▸ Std.Refl.refl _)
  | abandon group =>
    rcases (abandon group).run_cases src c with ⟨u, d, hrun, ok⟩ | ⟨err, d, hrun, same⟩
    · refine .inr ⟨group, ⟨rfl, u, congrArg Prod.fst hrun⟩, ?_⟩
      obtain ⟨-, rfl⟩ := (abandon_eq_ok arises.keyed).1 ok
      rw [show (Operation.abandon group).after src c = _ from congrArg Prod.snd hrun]
      exact minds_closed c.toStore group .abandoned (src.time c.ticks)
    · rw [show (Operation.abandon group).after src c = d from congrArg Prod.snd hrun, same]
      exact .inl (Std.Refl.refl _)
  | autoaccept editor body =>
    -- the editgroup that is made and closed at once is nobody's to work on
    rcases arises.autoaccept_published_cases src editor body with
      ⟨group, f, d, entry, -, performed, row, drafts, published⟩ | ⟨err, d, -, performed, same⟩
    · rw [show (Operation.autoaccept editor body).after src c = _ from congrArg Prod.snd performed,
        published.tables]
      exact .inl (.of_eq rfl)
    · rw [show (Operation.autoaccept editor body).after src c = d from congrArg Prod.snd performed,
        same]
      exact .inl (Std.Refl.refl _)
  | stageEdit group target previous action =>
    refine .inl ((arises.after_leadsBy src _).related arises fun _ may step => step.minds ?_)
    cases target <;> grind [Operation.May, Deed.IsIdle]
  | _ =>
    refine .inl ((arises.after_leadsBy src _).related arises fun _ may step => step.minds ?_)
    grind [Operation.May, Deed.IsIdle]

/-! ### Asking for an editgroup -/

/-- What an editor has taken up is found if it can be worked on. -/
theorem Arises.openEditgroupOf_eq_ok (arises : s.Arises) (he : e ∈ s.editors)
    {found : Option EditgroupId} :
    s.openEditgroupOf e = .ok found ↔
      found = e.activeEditgroup ∧
        ∀ group, e.activeEditgroup = some group → s.HasWritable group := by
  unfold openEditgroupOf
  cases active : e.activeEditgroup with
  | none => simp [eq_comm]
  | some group =>
    obtain ⟨row, hrow, hid, -, pending⟩ := arises.works_on e he group active
    have here : ∀ {header : Editgroup}, s.getEditgroupHeader group = .ok header ↔
        headerOfRow row = .ok header := by
      intro header
      rw [arises.keyed.getEditgroupHeader_eq_ok]
      constructor
      · rintro ⟨row', hrow', hid', read⟩
        rwa [arises.keyed.editgroup_unique hrow hrow' (hid.trans hid'.symm)]
      · exact fun read => ⟨row, hrow, hid, read⟩
    simp only [Except.bind_eq_ok, here]
    constructor
    · rintro ⟨header, read, h⟩
      rw [(headerOfRow_eq_ok read).2, if_pos pending] at h
      refine ⟨(Except.ok.inj h).symm, ?_⟩
      rintro _ ⟨⟩
      exact ⟨row, hrow, hid, pending, isLegible_iff.2 ⟨header, read⟩⟩
    · rintro ⟨rfl, writable⟩
      obtain ⟨row', hrow', hid', -, legible⟩ := writable group rfl
      obtain rfl := arises.keyed.editgroup_unique hrow hrow' (hid.trans hid'.symm)
      obtain ⟨header, read⟩ := isLegible_iff.1 legible
      exact ⟨header, read, by rw [(headerOfRow_eq_ok read).2, if_pos pending]; rfl⟩

/-- The editor goes on with what there is to work on: asking for it changes nothing. -/
structure Resumes (src : Source) (c : Catalog) (editor : EditorId) (group : EditgroupId) :
    Prop where
  answer : (Operation.activeEditgroup editor).answer src c = .ok group
  same : (Operation.activeEditgroup editor).after src c = c

/-- The editor is given an editgroup to work on that is new, open and the editor's own. -/
structure Opens (src : Source) (c : Catalog) (editor : EditorId) (group : EditgroupId) : Prop where
  answer : (Operation.activeEditgroup editor).answer src c = .ok group
  new : ∀ g ∈ c.editgroups, g.id ≠ group
  tables : ((Operation.activeEditgroup editor).after src c).toStore =
    working editor group { c.toStore with
      editgroups := c.editgroups ++ [newEditgroup editor none .empty group (src.time c.ticks)] }

theorem Arises.resumes (arises : c.Arises) (src : Source) (he : e ∈ c.editors)
    (active : e.activeEditgroup = some group) (writable : c.HasWritable group) :
    Resumes src c e.id group := by
  have found : c.openEditgroupOf e = .ok (some group) :=
    (arises.openEditgroupOf_eq_ok he).2 ⟨active.symm, fun _ h => by
      rwa [← Option.some.inj (active.symm.trans h)]⟩
  have known := arises.keyed.getEditor_eq_ok.2 ⟨he, rfl⟩
  have ran : activeEditgroup e.id src c = (.ok group, c) :=
    look_bind_eq_ok.2 ⟨e, known, look_bind_eq_ok.2 ⟨_, found, rfl⟩⟩
  have performed := Write.run_eq_ok.2 ran
  exact ⟨congrArg Prod.fst performed, congrArg Prod.snd performed⟩

theorem Arises.opens (arises : c.Arises) (he : e ∈ c.editors) (idle : e.activeEditgroup = none)
    (new : ∀ g ∈ c.editgroups, g.id ≠ ⟨src.id c.drawn⟩) :
    Opens src c e.id ⟨src.id c.drawn⟩ := by
  have found : c.openEditgroupOf e = .ok none :=
    (arises.openEditgroupOf_eq_ok he).2 ⟨idle.symm, fun _ h => nomatch idle.symm.trans h⟩
  have known := arises.keyed.getEditor_eq_ok.2 ⟨he, rfl⟩
  have created : createEditgroup e.id none .empty src c = (.ok ⟨src.id c.drawn⟩, _) :=
    createEditgroup_eq_ok.2 ⟨⟨e, he, rfl⟩, new, rfl, rfl⟩
  have ran : activeEditgroup e.id src c = (.ok ⟨src.id c.drawn⟩, _) :=
    look_bind_eq_ok.2 ⟨e, known, look_bind_eq_ok.2 ⟨_, found,
      Write.bind_eq_ok.2 ⟨_, _, created, Write.bind_eq_ok.2 ⟨(), _, alter_eq_ok.2 rfl, rfl⟩⟩⟩⟩
  have performed := Write.run_eq_ok.2 ran
  exact ⟨congrArg Prod.fst performed, new, congrArg (Catalog.toStore ·.2) performed⟩

/-- An editor who asks for an editgroup to work on goes on with the one that there is, or a new one
    is made if there is none; or nothing happens. -/
theorem Arises.activeEditgroup_cases (arises : c.Arises) (src : Source) (editor : EditorId) :
    (∃ err, (Operation.activeEditgroup editor).answer src c = .error err ∧
        ((Operation.activeEditgroup editor).after src c).toStore = c.toStore) ∨
      ∃ e ∈ c.editors, e.id = editor ∧ ∃ group,
        e.activeEditgroup = some group ∧ Resumes src c editor group ∨
          e.activeEditgroup = none ∧ Opens src c editor group := by
  rcases (activeEditgroup editor).run_cases src c with ⟨group, d, hrun, ok⟩ | ⟨err, d, hrun, same⟩
  · have answer : (Operation.activeEditgroup editor).answer src c = .ok group :=
      congrArg Prod.fst hrun
    have after : (Operation.activeEditgroup editor).after src c = d := congrArg Prod.snd hrun
    obtain ⟨e, known, ok⟩ := look_bind_eq_ok.1 ok
    obtain ⟨he, rfl⟩ := arises.keyed.getEditor_eq_ok.1 known
    obtain ⟨found, hfound, ok⟩ := look_bind_eq_ok.1 ok
    obtain ⟨rfl, writable⟩ := (arises.openEditgroupOf_eq_ok he).1 hfound
    refine .inr ⟨e, he, rfl, group, ?_⟩
    cases active : e.activeEditgroup with
    | some g =>
      rw [active] at ok
      obtain ⟨rfl, rfl⟩ := Write.pure_eq_ok.1 ok
      exact .inl ⟨rfl, answer, after⟩
    | none =>
      rw [active] at ok
      obtain ⟨g, _, created, ok⟩ := Write.bind_eq_ok.1 ok
      obtain ⟨_, _, set, ok⟩ := Write.bind_eq_ok.1 ok
      obtain ⟨rfl, rfl⟩ := Write.pure_eq_ok.1 ok
      obtain rfl := alter_eq_ok.1 set
      obtain ⟨-, new, -, rfl⟩ := createEditgroup_eq_ok.1 created
      exact .inr ⟨rfl, answer, new, congrArg Catalog.toStore after⟩
  · exact .inl ⟨err, congrArg Prod.fst hrun,
      same ▸ congrArg Catalog.toStore (congrArg Prod.snd hrun)⟩

/-! ### Steps -/

/-- An editor works on an editgroup until it is closed. -/
theorem Arises.stays (arises : c.Arises) (src : Source) (op : Operation α) (he : e ∈ c.editors)
    (active : e.activeEditgroup = some group) (unclosed : ¬op.Closes src c group) :
    e ∈ (op.after src c).editors := by
  by_cases asks : ∃ editor, (⟨op⟩ : Event) = ⟨.activeEditgroup editor⟩
  · obtain ⟨editor, asks⟩ := asks
    cases asks
    rcases arises.activeEditgroup_cases src editor with
      ⟨err, -, same⟩ | ⟨f, hf, rfl, next, ⟨-, resumes⟩ | ⟨idle, opens⟩⟩
    · exact same ▸ he
    · rwa [resumes.same]
    · have other : e.id ≠ f.id := by
        intro same
        obtain rfl := arises.keyed.editor_unique he hf same
        cases active.symm.trans idle
      rw [opens.tables]
      exact List.mem_map.2 ⟨e, he, if_neg (by simpa using other)⟩
  · rcases arises.after_minds src op (not_exists.1 asks) with minds | ⟨closing, closes, minds⟩
    · exact minds.editors e he (.inl rfl)
    · refine minds.editors e he (.inr fun same => ?_)
      obtain rfl := Option.some.inj (active.symm.trans same)
      exact unclosed closes

/-- An editor works on what that editor worked on before, or has just been given. -/
theorem Arises.was_given (arises : c.Arises) (src : Source) (op : Operation α)
    (he : e ∈ (op.after src c).editors) (active : e.activeEditgroup = some group) :
    e ∈ c.editors ∨ (⟨op⟩ : Event) = ⟨.activeEditgroup e.id⟩ ∧ Opens src c e.id group := by
  have works : e.activeEditgroup ≠ none := by simp [active]
  by_cases asks : ∃ editor, (⟨op⟩ : Event) = ⟨.activeEditgroup editor⟩
  · obtain ⟨editor, asks⟩ := asks
    cases asks
    rcases arises.activeEditgroup_cases src editor with
      ⟨err, -, same⟩ | ⟨f, hf, rfl, next, ⟨-, resumes⟩ | ⟨idle, opens⟩⟩
    · exact .inl (same ▸ he)
    · exact .inl (resumes.same ▸ he)
    · rw [opens.tables] at he
      obtain ⟨x, hx, rfl⟩ := List.mem_map.1 he
      by_cases here : x.id = f.id
      · simp only [here, beq_self_eq_true, if_true] at active ⊢
        obtain rfl := Option.some.inj active
        exact .inr ⟨trivial, opens⟩
      · exact .inl (by simpa [here] using hx)
  · rcases arises.after_minds src op (not_exists.1 asks) with minds | ⟨closing, -, minds⟩
    · exact .inl (minds.working e he works)
    · exact .inl (minds.working e he works)

theorem HasWritable.ended (writable : s.HasWritable group) {status : EditgroupStatus}
    (closing : status ≠ .pending) (time : Instant) :
    ∃ g ∈ (s.closed group status time).editgroups, g.id = group ∧ g.status ≠ .pending := by
  obtain ⟨g, hg, hid, -⟩ := writable
  exact ⟨_, mem_closed_editgroups.2 (.inr ⟨g, hg, hid, rfl⟩), hid, closing⟩

/-- An editgroup that is closed is not pending any more. -/
theorem Arises.ended (arises : c.Arises) (op : Operation α) (closes : op.Closes src c group) :
    ∃ g ∈ (op.after src c).editgroups, g.id = group ∧ g.status ≠ .pending := by
  obtain ⟨closing, a, ok⟩ := closes
  cases op with
  | accept closed =>
    obtain rfl := Option.some.inj closing
    rcases arises.answer_accept src closed with ⟨-, after, writable, -⟩ | ⟨err, error, -⟩
    · rw [after]
      exact writable.ended (by simp) (src.time c.ticks)
    · cases error.symm.trans ok
  | abandon closed =>
    obtain rfl := Option.some.inj closing
    obtain ⟨writable, after⟩ := (abandon_eq_ok arises.keyed).1 (Write.run_eq_ok.1 (Prod.ext ok rfl))
    rw [show (Operation.abandon closed).after src c = _ from after]
    exact writable.ended (by simp) (src.time c.ticks)
  | _ => cases closing

end Operations

/-- Editors are never taken away. -/
theorem Becomes.editor_ids {s t : Store} (h : s.Becomes t) :
    s.editors.map (·.id) <+: t.editors.map (·.id) := by
  induction h with
  | refl => exact List.prefix_rfl
  | @tail t u before step ih =>
    obtain ⟨k, step⟩ := step
    refine ih.trans ?_
    have closed : ∀ group status time,
        t.editors.map (·.id) <+: (t.closed group status time).editors.map (·.id) := by
      intro group status time
      rw [map_editors_closed fun _ _ => rfl]
    cases step with
    | editor e _ _ _ =>
      rw [List.map_append]
      exact List.prefix_append _ _
    | activate g _ _ => rw [map_editors_working fun _ _ => rfl]
    | accept group closedAt acceptedAt _ _ => exact closed group .accepted closedAt
    | abandon group time _ => exact closed group .abandoned time
    | _ => exact List.prefix_rfl

end Store

end Biblio
