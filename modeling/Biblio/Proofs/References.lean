import Biblio.Proofs.Lookups

/-! What rows refer to.

    A link of a body is checked once, when its revision is created, and nothing in the tables holds
    on to its target afterwards. The target stays all the same, with its kind, because identities
    are never taken away. So it is with everything else that rows refer to. -/

namespace Biblio.Store

/-- Everything that is stored refers to what is there, and to what is of the right kind. -/
structure Intact (s : Store) : Prop where
  /-- Rows are told apart by their identifiers, editors by their names, and the edits of an
      editgroup by their identities. -/
  keyed : s.Keyed
  /-- A revision is that of a body, whose links lead to identities of the kinds that they need. -/
  links : ∀ r ∈ s.revisions, ∃ b, r.IsOf b ∧
    ∀ l ∈ b.relations, s.HasIdentity l.target l.kind.targetKind
  /-- Edits and identities refer to what is there. -/
  grounded : s.Grounded
  owners : ∀ g ∈ s.editgroups, ∃ e ∈ s.editors, e.id = g.editor
  names : ∀ e ∈ s.editors, FieldFault.ofUsername? e.username = none
  entries : ∀ x ∈ s.changelog, ∃ g ∈ s.editgroups, g.id = x.editgroup

variable {s t : Store}

/-! ### Links -/

/-- A link in which nothing is wrong leads to an identity of the kind that it needs. -/
theorem hasIdentity_of_relationFault? {entity : EntityKind} {l : Relation}
    (right : s.relationFault? entity l = none) : s.HasIdentity l.target l.kind.targetKind := by
  simp only [relationFault?, Option.map_eq_none_iff] at right
  cases hx : s.identity? l.target with
  | none => simp [hx] at right
  | some x =>
    by_cases kind : x.kind = l.kind.targetKind
    · exact ⟨x, List.mem_of_find?_eq_some hx, by simpa using List.find?_some hx, kind⟩
    · simp [hx, kind] at right

/-- The links of a body that is accepted lead to identities of the kinds that they need. -/
theorem hasIdentity_of_bodyFaults {b : EntityBody} (valid : s.bodyFaults b = []) :
    ∀ l ∈ b.relations, s.HasIdentity l.target l.kind.targetKind := by
  intro l hl
  have none_wrong := (List.append_eq_nil_iff.1 valid).2
  rw [List.filterMap_eq_nil_iff] at none_wrong
  exact hasIdentity_of_relationFault? (none_wrong l hl)

theorem Arises.links (h : s.Arises) : ∀ r ∈ s.revisions, ∃ b, r.IsOf b ∧
    ∀ l ∈ b.relations, s.HasIdentity l.target l.kind.targetKind := by
  induction h using Arises.induction with
  | empty => exact fun r hr => nomatch hr
  | @change s t k arises step ih =>
    have kept : ∀ r ∈ s.revisions, ∃ b, r.IsOf b ∧
        ∀ l ∈ b.relations, t.HasIdentity l.target l.kind.targetKind := by
      intro r hr
      obtain ⟨b, hb, leads⟩ := ih r hr
      exact ⟨b, hb, fun l hl => step.keeps.hasIdentity (leads l hl)⟩
    cases step with
    | revision body id time valid new =>
      refine List.forall_mem_append.2 ⟨kept, List.forall_mem_singleton.2 ⟨body, ⟨?_, rfl⟩, ?_⟩⟩
      · exact (List.append_eq_nil_iff.1 valid).1
      · exact hasIdentity_of_bodyFaults valid
    | _ => exact kept

/-! ### Editors and their editgroups -/

/-- A name that is accepted is one that an account can have. -/
theorem ofUsername?_of_checkUsername {username : String}
    (name : s.checkUsername username = .ok ()) : FieldFault.ofUsername? username = none := by
  unfold checkUsername at name
  split at name
  · cases name
  · assumption

theorem Arises.owners (h : s.Arises) :
    ∀ owner ∈ s.editgroups.map (·.editor), owner ∈ s.editors.map (·.id) := by
  induction h using Arises.induction with
  | empty => exact fun owner howner => nomatch howner
  | @change s t k arises step ih =>
    have closed : ∀ group status time,
        ∀ owner ∈ (s.closed group status time).editgroups.map (·.editor),
          owner ∈ (s.closed group status time).editors.map (·.id) := by
      intro group status time
      rw [map_editgroups_closed fun _ _ _ => rfl, map_editors_closed fun _ _ => rfl]
      exact ih
    cases step with
    | editor e _ _ _ =>
      intro owner howner
      rw [List.map_append]
      exact List.mem_append_left _ (ih owner howner)
    | editgroup g _ _ editor _ =>
      rw [List.map_append, List.forall_mem_append]
      exact ⟨ih, List.forall_mem_singleton.2 (List.mem_map.2 editor)⟩
    | activate g _ _ =>
      rw [map_editors_working fun _ _ => rfl]
      exact ih
    | accept group closedAt acceptedAt _ _ => exact closed group .accepted closedAt
    | abandon group time _ => exact closed group .abandoned time
    | _ => exact ih

theorem Arises.names (h : s.Arises) :
    ∀ name ∈ s.editors.map (·.username), FieldFault.ofUsername? name = none := by
  induction h using Arises.induction with
  | empty => exact fun name hname => nomatch hname
  | @change s t k arises step ih =>
    have closed : ∀ group status time,
        ∀ name ∈ (s.closed group status time).editors.map (·.username),
          FieldFault.ofUsername? name = none := by
      intro group status time
      rw [map_editors_closed fun _ _ => rfl]
      exact ih
    cases step with
    | editor e name _ _ =>
      rw [List.map_append, List.forall_mem_append]
      exact ⟨ih, List.forall_mem_singleton.2 (ofUsername?_of_checkUsername name)⟩
    | activate g _ _ =>
      rw [map_editors_working fun _ _ => rfl]
      exact ih
    | accept group closedAt acceptedAt _ _ => exact closed group .accepted closedAt
    | abandon group time _ => exact closed group .abandoned time
    | _ => exact ih

/-- The editgroup that an editor is working on belongs to that editor and is open. -/
theorem Arises.works_on (h : s.Arises) : ∀ e ∈ s.editors, ∀ group, e.activeEditgroup = some group →
    ∃ g ∈ s.editgroups, g.id = group ∧ g.editor = e.id ∧ g.status = .pending := by
  induction h using Arises.induction with
  | empty => exact fun e he => nomatch he
  | @change s t k arises step ih =>
    -- nobody works on an editgroup that is closed, and the other editgroups stay
    have closed : ∀ {closing : EditgroupId} {status : EditgroupStatus} {time : Instant},
        ∀ e ∈ (s.closed closing status time).editors, ∀ group, e.activeEditgroup = some group →
          ∃ g ∈ (s.closed closing status time).editgroups,
            g.id = group ∧ g.editor = e.id ∧ g.status = .pending := by
      intro closing status time e he group active
      obtain ⟨f, hf, rfl⟩ := List.mem_map.1 he
      by_cases here : f.activeEditgroup = some closing
      · simp [here] at active
      · simp only [here, beq_iff_eq, if_false] at active ⊢
        obtain ⟨g, hg, rfl, owned⟩ := ih f hf group active
        have other : g.id ≠ closing := by
          rintro rfl
          exact here active
        exact ⟨g, mem_closed_editgroups.2 (.inl ⟨hg, other⟩), rfl, owned⟩
    cases step with
    | editor e _ idle _ =>
      refine List.forall_mem_append.2 ⟨ih, List.forall_mem_singleton.2 fun group active => ?_⟩
      cases idle.symm.trans active
    | editgroup g _ _ _ _ =>
      intro e he group active
      obtain ⟨g', hg', owned⟩ := ih e he group active
      exact ⟨g', List.mem_append_left _ hg', owned⟩
    | activate g known pending =>
      intro e he group active
      obtain ⟨f, hf, rfl⟩ := List.mem_map.1 he
      by_cases here : f.id = g.editor
      · simp only [here, beq_self_eq_true, if_true] at active ⊢
        exact ⟨g, known, Option.some.inj active, rfl, pending⟩
      · simp only [here, beq_iff_eq, if_false] at active ⊢
        exact ih f hf group active
    | accept group closedAt acceptedAt _ _ => exact closed
    | abandon group time _ => exact closed
    | _ => exact ih

theorem Arises.intact (h : s.Arises) : s.Intact where
  keyed := h.keyed
  links := h.links
  grounded := h.grounded
  owners g hg := List.mem_map.1 (h.owners g.editor (List.mem_map_of_mem hg))
  names e he := h.names e.username (List.mem_map_of_mem he)
  entries x hx := by
    obtain ⟨g, hg, hid, -⟩ := h.logged.known x hx
    exact ⟨g, hg, hid⟩

end Biblio.Store

namespace Biblio.Catalog

/-- Everything that is stored refers to what is there, whichever operations led to it and whether
    they succeeded. -/
theorem Reachable.references_are_intact {src : Source} {c : Catalog} (h : Reachable src c) :
    c.Intact :=
  h.arises.intact

/-- The releases of the example refer to a work that is there. -/
theorem published_references_are_intact :
    ∃ r ∈ published.revisions, ∃ l ∈ r.relations, published.HasIdentity l.target .work := by
  obtain ⟨r, hr, l, hl, kind⟩ : ∃ r ∈ published.revisions, ∃ l ∈ r.relations,
      l.kind.targetKind = .work := by decide +kernel
  have intact := Reachable.references_are_intact
    (show Reachable .counting published from leads_play ..)
  obtain ⟨b, hb, leads⟩ := intact.links r hr
  have same : r.relations = b.relations := by rw [hb.2]; rfl
  exact ⟨r, hr, l, hl, kind ▸ leads l (same ▸ hl)⟩

end Biblio.Catalog
