import Biblio.Proofs.Operations

/-! Where the identifiers in the tables come from.

    Every identifier of a row was drawn from the source before the row was inserted, and no row ever
    gets another one. So an identifier that is drawn next is new to all tables as long as the source
    does not repeat itself. -/

namespace Biblio

namespace Store

/-- The identifiers of all rows. -/
def ids (s : Store) : List Uuid :=
  s.editors.map (·.id.uuid) ++ s.editgroups.map (·.id.uuid) ++ s.revisions.map (·.id.uuid)
    ++ s.identities.map (·.id.uuid) ++ s.edits.map (·.id.uuid)

theorem mem_ids {s : Store} {u : Uuid} :
    u ∈ s.ids ↔ u ∈ s.editors.map (·.id.uuid) ∨ u ∈ s.editgroups.map (·.id.uuid) ∨
      u ∈ s.revisions.map (·.id.uuid) ∨ u ∈ s.identities.map (·.id.uuid) ∨
        u ∈ s.edits.map (·.id.uuid) := by
  simp only [ids, List.mem_append, or_assoc]

/-- A row that is appended comes with its own identifier. -/
theorem mem_map_concat {α β : Type} {f : α → β} {rows : List α} {row : α} {b : β} :
    b ∈ (rows ++ [row]).map f ↔ b ∈ rows.map f ∨ b = f row := by
  simp [eq_comm]

/-- An editgroup that is closed keeps its identifier, and so do the editors. -/
theorem ids_closed (s : Store) (group : EditgroupId) (status : EditgroupStatus) (time : Instant) :
    (s.closed group status time).ids = s.ids := by
  rw [ids, map_editors_closed fun _ _ => rfl, map_editgroups_closed fun _ _ _ => rfl]
  rfl

/-- An identity that an edit takes effect on keeps its identifier. -/
theorem ids_written (s : Store) (edits : List Edit) : (s.written edits).ids = s.ids := by
  have same : (s.written edits).identities.map (·.id.uuid) = s.identities.map (·.id.uuid) := by
    simp [written]
  rw [ids, same]
  rfl

/-- The tables hold no identifiers behind a change but those before it, and those of the rows that
    were made. -/
theorem Change.mem_ids {s t : Store} {k : Deed} (step : Change s k t) {u : Uuid} (hu : u ∈ t.ids) :
    u ∈ s.ids ∨ u ∈ k.ids := by
  cases step with
  | activate g _ _ =>
    rw [ids, map_editors_working fun _ _ => rfl] at hu
    exact .inl hu
  | remove e _ _ =>
    have kept : u ∈ (s.edits.filter (·.id != e.id)).map (·.id.uuid) →
        u ∈ s.edits.map (·.id.uuid) := fun h => (List.filter_sublist.map _).subset h
    rw [Store.mem_ids] at hu ⊢
    grind
  | accept group closedAt acceptedAt _ _ =>
    exact .inl (ids_written s _ ▸ ids_closed _ group .accepted closedAt ▸ hu)
  | abandon group time _ => exact .inl (ids_closed s group .abandoned time ▸ hu)
  | _ => grind [Store.mem_ids, mem_map_concat, Deed.ids]

end Store

namespace Catalog

/-- All rows have identifiers that were drawn. -/
def IsDrawn (src : Source) (c : Catalog) : Prop := ∀ u ∈ c.ids, src.Gave c.drawn u

section IsDrawn
variable {src : Source} {c d : Catalog}

/-- An identifier that is still to be drawn is new, unless the source repeats itself. -/
theorem IsDrawn.notMem (h : c.IsDrawn src) {n : Nat} (le : c.drawn ≤ n)
    (fresh : src.IsFresh (n + 1)) : src.id n ∉ c.ids := by
  intro hu
  obtain ⟨i, hi, same⟩ := h _ hu
  have := fresh i n (by omega) (by omega) same
  omega

theorem Does.isDrawn {k : Deed} (does : c.Does src k d) (h : c.IsDrawn src) : d.IsDrawn src := by
  intro u hu
  rcases does.change.mem_ids hu with old | new
  · exact (h u old).mono does.drawn
  · exact does.gave u new

theorem LeadsBy.isDrawn {may : Deed → Prop} (h : c.LeadsBy src may d) (drawn : c.IsDrawn src) :
    d.IsDrawn src := by
  induction h with
  | refl => exact drawn
  | tail _ step ih =>
    cases step with
    | wait draws same => exact fun u hu => (ih u (same ▸ hu)).mono draws.drawn
    | deed _ does => exact does.isDrawn ih

/-- The rows of a catalog that operations lead to have identifiers that were drawn. -/
theorem Reachable.isDrawn (h : Reachable src c) : c.IsDrawn src := by
  induction h with
  | stay => exact fun u hu => nomatch hu
  | go op before ih => exact ((Reachable.arises before).after_leadsBy src op).isDrawn ih

end IsDrawn

end Catalog

end Biblio
