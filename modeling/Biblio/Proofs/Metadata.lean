import Biblio.Proofs.Decoding
import Biblio.Proofs.Operations

/-! Which editgroups can be read.

    The metadata of an editgroup is kept as text and decoded whenever something is done with the
    editgroup. Nothing limits how deeply it nests when the editgroup is created, but a text that
    nests more than 127 deep is not read. An editgroup with such metadata is open, but it takes no
    edits, and it can be neither accepted nor abandoned. It is only the depth that matters: any
    other metadata is read. -/

namespace Biblio

open Json

/-! ### Metadata as text -/

theorem Json.Decoder.members_of_not_admits {ms : List (String × Json)} {o : Origin}
    (deep : ¬o.Admits (Json.obj ms).depth) :
    ∃ f, Decoder.members o (.ofJson (.obj ms)) = .error f := by
  simp only [Document.ofJson, Decoder.members]
  cases entered : o.enter with
  | error f => exact ⟨f, rfl⟩
  | ok inner =>
    have inside := Origin.admits_zero_of_enter entered
    obtain ⟨f, hf⟩ := anyMembers_of_not_admits ms inside fun fits => deep (fits.leave entered)
    exact ⟨f, by rw [Except.ok_bind, hf]; rfl⟩

/-- Metadata is read back from its text, unless that nests too deeply. -/
theorem Extra.decodeStored_text (x : Extra) :
    decodeStored decoder x.toJson.text =
      if x.toJson.depth ≤ maxDepth then .ok x.reread else .error (.storage .undecodable) := by
  rw [decodeStored, Decoder.ofText_text, ← toJson_reread]
  have depth : x.reread.toJson.depth = x.toJson.depth := by rw [toJson_reread, depth_reread]
  split_ifs with shallow
  · have admits := Decoder.Origin.admits_text_zero.2 (depth.symm ▸ shallow)
    rw [Decoder.reads_extra x.reread (.text 0) admits]
  · have deep : ¬(Origin.text 0).Admits x.reread.toJson.depth := fun fits =>
      shallow (depth ▸ Decoder.Origin.admits_text_zero.1 fits)
    obtain ⟨f, failed⟩ := Decoder.members_of_not_admits deep
    rw [decoder, Decoder.map, toJson, failed]
    rfl

theorem EditgroupRow.Holds.isLegible_iff {row : EditgroupRow} {x : Extra} (h : row.Holds x) :
    row.IsLegible ↔ x.toJson.depth ≤ maxDepth := by
  rw [EditgroupRow.IsLegible, show row.extra = _ from h]
  by_cases empty : x.isEmpty = true
  · have members : x.members = [] := List.isEmpty_iff.1 empty
    have shallow : x.toJson.depth ≤ maxDepth := by
      rw [Extra.toJson, members]
      decide
    simp [empty, shallow]
  · rw [if_neg empty]
    simp only [Option.some.injEq, forall_eq', x.decodeStored_text]
    split_ifs with shallow <;> simp [shallow]

namespace Store

/-! ### Editgroups as rows -/

section Editgroups
variable {s : Store} {group : EditgroupId} {g : EditgroupRow}

/-- Every editgroup keeps the metadata that it was created with. -/
theorem Arises.exists_holds (h : s.Arises) : ∀ g ∈ s.editgroups, ∃ x, g.Holds x := by
  induction h using Arises.induction with
  | empty => exact fun g hg => nomatch hg
  | @change s t k arises step ih =>
    have closed : ∀ closing status time, ∀ g ∈ (s.closed closing status time).editgroups,
        ∃ x, g.Holds x := by
      intro closing status time g hg
      rcases mem_closed_editgroups.1 hg with ⟨hg, -⟩ | ⟨g', hg', -, rfl⟩
      · exact ih g hg
      · exact ih g' hg'
    cases step with
    | editgroup g _ _ _ _ metadata =>
      exact List.forall_mem_append.2 ⟨ih, List.forall_mem_singleton.2 metadata⟩
    | accept group closedAt acceptedAt _ _ => exact closed group .accepted closedAt
    | abandon group time _ => exact closed group .abandoned time
    | _ => exact ih

theorem Keyed.isLegible_iff (keyed : s.Keyed) (hg : g ∈ s.editgroups) {x : Extra}
    (holds : g.Holds x) : s.IsLegible g.id ↔ x.toJson.depth ≤ maxDepth := by
  rw [← holds.isLegible_iff]
  constructor
  · exact fun legible => legible g hg rfl
  · intro legible g' hg' same
    rwa [keyed.editgroup_unique hg' hg same]

/-- An editgroup that has an edit can be read: it could be when that was staged. -/
theorem Arises.isLegible_of_edit (h : s.Arises) {e : Edit} (he : e ∈ s.editsOf group) :
    s.IsLegible group := by
  obtain ⟨staged, rfl⟩ := mem_editsOf.1 he
  obtain ⟨g, hg, hid, legible⟩ := (h.grounded.edits e staged).editgroup
  intro g' hg' same
  rwa [h.keyed.editgroup_unique hg' hg (same.trans hid.symm)]

theorem error_of_headerOfRow {err : CatalogError} (failed : headerOfRow g = .error err) :
    err = .storage .undecodable := by
  unfold headerOfRow at failed
  cases hextra : g.extra with
  | none =>
    rw [hextra] at failed
    cases failed
  | some text =>
    rw [hextra] at failed
    simp only [decodeStored] at failed
    cases hread : Extra.decoder.ofText text with
    | ok x =>
      rw [hread] at failed
      cases failed
    | error f =>
      rw [hread] at failed
      exact (Except.error.inj failed).symm

/-- Nobody gets to work on an editgroup that cannot be read. -/
theorem Keyed.requireOpen_of_not_isLegible (keyed : s.Keyed) (illegible : ¬s.IsLegible group) :
    s.requireOpen group = .error (.storage .undecodable) := by
  simp only [IsLegible, not_forall] at illegible
  obtain ⟨g, hg, rfl, illegible⟩ := illegible
  have there : s.editgroupRow? g.id = some g := keyed.editgroupRow?_eq_some.2 ⟨hg, rfl⟩
  have failed : headerOfRow g = .error (.storage .undecodable) := by
    cases hheader : headerOfRow g with
    | ok header => exact absurd (Store.isLegible_iff.2 ⟨header, hheader⟩) illegible
    | error err => rw [error_of_headerOfRow hheader]
  simp only [requireOpen, getEditgroupHeader, there, found, Except.ok_bind, failed]
  rfl

end Editgroups

/-! ### Operations -/

section Operations
variable {c : Catalog} {group : EditgroupId}

/-- What begins with asking whether an editgroup is open fails if that cannot be read. -/
theorem Keyed.run_of_not_isLegible (keyed : c.Keyed) (illegible : ¬c.IsLegible group)
    (src : Source) {α : Type} (f : Editgroup → Write α) :
    ((look (requireOpen group) >>= f).run src c).1 = .error (.storage .undecodable) := by
  have failed : look (requireOpen group) src c = (.error (.storage .undecodable), c) :=
    congrArg (·, c) (keyed.requireOpen_of_not_isLegible illegible)
  rw [Write.run, Write.bind_apply, failed]

theorem Keyed.accept_of_not_isLegible (keyed : c.Keyed) (illegible : ¬c.IsLegible group)
    (src : Source) :
    (Operation.accept group).answer src c = .error (.storage .undecodable) :=
  keyed.run_of_not_isLegible illegible src _

theorem Keyed.stageEdit_of_not_isLegible (keyed : c.Keyed) (illegible : ¬c.IsLegible group)
    (target : EditTarget) (previous : Option RevisionId) (action : EditAction) (src : Source) :
    (Operation.stageEdit group target previous action).answer src c =
      .error (.storage .undecodable) :=
  keyed.run_of_not_isLegible illegible src _

end Operations

end Store

namespace Catalog

/-- An editgroup can be read exactly if the metadata that it was created with nests no deeper than a
    text that is read may. -/
theorem Reachable.isLegible_iff_shallow {src : Source} {c : Catalog} (h : Reachable src c)
    {g : EditgroupRow} (hg : g ∈ c.editgroups) :
    ∃ x, g.Holds x ∧ (c.IsLegible g.id ↔ x.toJson.depth ≤ maxDepth) := by
  obtain ⟨x, holds⟩ := h.arises.exists_holds g hg
  exact ⟨x, holds, h.arises.keyed.isLegible_iff hg holds⟩

/-! ### An example -/

/-- A revision of a work, and an open editgroup with metadata that nests too deeply. -/
def deepDrawerRun : List Event := [
  ⟨.createEditor "someone"⟩, ⟨.createRevision (.work {})⟩,
  ⟨.createEditgroup (.nth 0) none (.ofMembers [("deep", .nested 127)])⟩]

/-- The catalog behind that. -/
def deepDrawer : Catalog := Catalog.empty.play .counting deepDrawerRun

theorem deepDrawer_hasOpen : deepDrawer.HasOpen (.nth 2) := by decide +kernel

theorem deepDrawer_not_isLegible : ¬deepDrawer.IsLegible (.nth 2) := by
  obtain ⟨g, hg, hid, holds⟩ : ∃ g ∈ deepDrawer.editgroups, g.id = .nth 2 ∧
      g.extra = if (Extra.ofMembers [("deep", .nested 127)]).isEmpty then none
        else some (Extra.ofMembers [("deep", .nested 127)]).toJson.text := by decide +kernel
  have reachable : Reachable .counting deepDrawer := leads_play ..
  rw [← hid, reachable.arises.keyed.isLegible_iff hg holds]
  decide +kernel

end Catalog

end Biblio
