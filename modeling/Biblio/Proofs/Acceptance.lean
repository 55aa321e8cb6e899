import Biblio.Proofs.Metadata

/-! What acceptance means.

    Whether an open editgroup can be accepted is a matter of the identities as they are before: each
    must be where its edit found it, and each redirect must be allowed once all other edits, and the
    redirects staged before it, are written. If it can be accepted, all its edits take effect at
    once. Besides, its metadata must be read; there is only an editgroup without edits to which that
    makes a difference. -/

namespace Biblio

namespace Store

/-- As the tables are, edits may take effect together. -/
structure Admits (s : Store) (edits : List Edit) : Prop where
  /-- Nothing edited was deleted, or points elsewhere than the edit says it did. -/
  bases : ∀ e ∈ edits, ∃ x, s.identity? e.ident = some x ∧ x.isDeleted = false ∧
    x.revision = e.previousRevision ∧ x.redirect = e.previousRedirect
  /-- With everything but redirects written, each redirect is allowed behind those before it. -/
  redirects : ∀ done e rest target,
    edits.filter (·.action.isRedirect) = done ++ e :: rest → e.action = .redirect target →
      ((s.written (edits.filter (!·.action.isRedirect))).written done).MayRedirect e.ident target

theorem Keyed.exists_fits_iff {s : Store} (keyed : s.Keyed) {e : Edit} :
    (∃ x ∈ s.identities, e.Fits x) ↔ ∃ x, s.identity? e.ident = some x ∧ x.isDeleted = false ∧
      x.revision = e.previousRevision ∧ x.redirect = e.previousRedirect := by
  constructor
  · rintro ⟨x, hx, hid, kept, base⟩
    exact ⟨x, keyed.identity?_eq_some.2 ⟨hx, hid⟩, kept, Prod.mk.inj base⟩
  · rintro ⟨x, hx, kept, revision, redirect⟩
    obtain ⟨hx, hid⟩ := keyed.identity?_eq_some.1 hx
    exact ⟨x, hx, hid, kept, Prod.ext revision redirect⟩

/-- To apply the edits one after the other, each checked against what those before it left, is to
    check them against the tables as they were. -/
theorem Keyed.takesAll_iff_admits {s : Store} (keyed : s.Keyed) {edits : List Edit}
    (distinct : (edits.map (·.ident)).Nodup) :
    s.TakesAll (inApplicationOrder edits) ↔ s.Admits edits := by
  have ordered : ((inApplicationOrder edits).map (·.ident)).Nodup :=
    ((inApplicationOrder_perm edits).map _).nodup_iff.1 distinct
  obtain ⟨hplain, hredirects, apart⟩ := List.nodup_append.1 (List.map_append ▸ ordered)
  have other : ∀ e ∈ edits.filter (·.action.isRedirect),
      ∀ f ∈ edits.filter (!·.action.isRedirect), f.ident ≠ e.ident := fun e he f hf =>
    apart _ (List.mem_map_of_mem hf) _ (List.mem_map_of_mem he)
  rw [inApplicationOrder, takesAll_append ordered, takesAll_iff hplain, takesAll_iff hredirects]
  -- only redirects look at other identities, and only at those written before them
  constructor
  · rintro ⟨⟨plainFit, -⟩, redirectFit, allowed⟩
    refine ⟨fun e he => keyed.exists_fits_iff.1 ?_, allowed⟩
    cases hr : e.action.isRedirect with
    | true =>
      have he : e ∈ edits.filter (·.action.isRedirect) := List.mem_filter.2 ⟨he, hr⟩
      exact (exists_fits_written (other e he)).1 (redirectFit e he)
    | false => exact plainFit e (List.mem_filter.2 ⟨he, by simp [hr]⟩)
  · rintro ⟨bases, allowed⟩
    refine ⟨⟨fun e he => ?_, ?_⟩, fun e he => ?_, allowed⟩
    · exact keyed.exists_fits_iff.2 (bases e (List.mem_of_mem_filter he))
    · intro done e rest target order hact
      have he : e ∈ edits.filter (!·.action.isRedirect) := order ▸ (by simp)
      simpa [hact, EditAction.isRedirect] using (List.mem_filter.1 he).2
    · exact (exists_fits_written (other e he)).2
        (keyed.exists_fits_iff.2 (bases e (List.mem_of_mem_filter he)))

/-! ### The tables behind an acceptance -/

/-- What differs behind the acceptance of an editgroup, and what does not. -/
structure IsAccepted (s t : Store) (group : Editgroup) (entry : ChangelogEntry) : Prop where
  /-- Each identity edited is live and is what its edit says. -/
  edited : ∀ e ∈ group.edits, ∃ x, s.identity? e.ident = some x ∧
    t.identity? e.ident = some { x with
      revision := e.action.revision?
      redirect := e.action.target?
      isLive := true
      isDeleted := e.action = .delete }
  unedited : ∀ id, (∀ e ∈ group.edits, e.ident ≠ id) → t.identity? id = s.identity? id
  changelog : t.changelog = s.changelog ++ [entry]
  entered : entry.seq = s.changelog.length + 1 ∧ entry.editgroup = group.id
  closed : ∃ time, t.getEditgroup group.id = .ok { group with
    status := .accepted
    closedAt := some time
    changelog := some entry }
  otherGroups : ∀ other, other ≠ group.id →
    t.editgroupRow? other = s.editgroupRow? other ∧ t.getEditgroup other = s.getEditgroup other
  /-- Nobody works on the editgroup any more. -/
  editors : t.editors = s.editors.map fun e =>
    if e.activeEditgroup = some group.id then { e with activeEditgroup := none } else e
  revisions : t.revisions = s.revisions
  edits : t.edits = s.edits

theorem find?_changeWhere {α β : Type} [DecidableEq β] {f : α → β} {test : α → Bool}
    {change : α → α} (same : ∀ x, f (change x) = f x) (rows : List α) (key : β) :
    (changeWhere test change rows).find? (f · == key) =
      (rows.find? (f · == key)).map fun x => if test x then change x else x := by
  have : (fun x => f x == key) ∘ (fun x => if test x then change x else x) = (f · == key) := by
    funext x
    by_cases h : test x = true <;> simp [h, same]
  rw [changeWhere, List.find?_map, this]

theorem identity?_written (s : Store) (edits : List Edit) (id : EntityId) :
    (s.written edits).identity? id = (s.identity? id).map (·.under edits) := by
  have : (fun x : Identity => x.id == id) ∘ Identity.under edits = (·.id == id) := by
    funext x
    simp
  rw [identity?, written, List.find?_map, this, identity?]

/-- The header of an editgroup is closed when the editgroup is. -/
theorem headerOfRow_closed (row : EditgroupRow) (status : EditgroupStatus) (time : Instant) :
    headerOfRow { row with status, closedAt := some time } =
      (headerOfRow row).map fun header => { header with status, closedAt := some time } := by
  unfold headerOfRow
  cases row.extra with
  | none => rfl
  | some text => cases hread : decodeStored Extra.decoder text <;> simp [hread] <;> rfl

/-- An edit that takes effect makes its identity what it says. -/
theorem after_eq {x : Identity} (kept : x.isDeleted = false) (a : EditAction) :
    x.after a = { x with
      revision := a.revision?
      redirect := a.target?
      isLive := true
      isDeleted := a = .delete } := by
  cases a <;> simp [Identity.after, EditAction.revision?, EditAction.target?, kept]

section Accepted
variable {s : Store} {id : EditgroupId} {closedAt acceptedAt : Instant}

theorem Keyed.accepted_identity? (keyed : s.Keyed) (ident : EntityId) :
    (s.accepted id closedAt acceptedAt).identity? ident =
      (s.identity? ident).map (·.under (s.editsOf id)) := by
  rw [← identity?_written,
    written_of_perm (keyed.editsOf_nodup id) (inApplicationOrder_perm (s.editsOf id))]
  rfl

theorem accepted_editgroupRow? (other : EditgroupId) :
    (s.accepted id closedAt acceptedAt).editgroupRow? other = (s.editgroupRow? other).map fun g =>
      if g.id == id then { g with status := .accepted, closedAt := some closedAt } else g := by
  refine find?_changeWhere ?_ s.editgroups other
  exact fun _ => rfl

theorem Keyed.accepted_editgroupRow?_of_ne (keyed : s.Keyed) {other : EditgroupId}
    (hne : other ≠ id) :
    (s.accepted id closedAt acceptedAt).editgroupRow? other = s.editgroupRow? other := by
  rw [accepted_editgroupRow?]
  cases hother : s.editgroupRow? other with
  | none => rfl
  | some g =>
    have : g.id ≠ id := (keyed.editgroupRow?_eq_some.1 hother).2 ▸ hne
    rw [Option.map_some, if_neg (by simpa using this)]

theorem Arises.accepted_changelogOf? (arises : s.Arises) (writable : s.HasWritable id)
    (other : EditgroupId) :
    (s.accepted id closedAt acceptedAt).changelogOf? other =
      if other = id then some ⟨s.nextSeq, id, acceptedAt⟩ else s.changelogOf? other := by
  have appended : (s.accepted id closedAt acceptedAt).changelogOf? other =
      (s.changelogOf? other).or
        (if id == other then some ⟨s.nextSeq, id, acceptedAt⟩ else none) := by
    simp only [changelogOf?, accepted, List.find?_append, List.find?_singleton]
  rw [appended]
  by_cases same : other = id
  · have unentered : s.changelogOf? id = none := Option.isNone_iff_eq_none.1
      (find?_isNone_iff.2 (arises.logged.not_entered arises.keyed writable))
    rw [same, unentered]
    simp
  · simp [same, Ne.symm same]

/-- All edits of an accepted editgroup took effect, and nothing else was touched. -/
theorem Arises.isAccepted (arises : s.Arises) {group : Editgroup}
    (read : s.getEditgroup id = .ok group) (writable : s.HasWritable id)
    (takes : s.TakesAll (inApplicationOrder (s.editsOf id))) :
    s.IsAccepted (s.accepted id closedAt acceptedAt) group ⟨s.nextSeq, id, acceptedAt⟩ := by
  have keyed := arises.keyed
  obtain ⟨row, header, hrow, hheader, rfl⟩ := getEditgroup_eq_ok read
  obtain rfl : row.id = id := (keyed.editgroupRow?_eq_some.1 hrow).2
  have hid := (headerOfRow_eq_ok hheader).1
  have fits := ((takesAll_iff (keyed.inApplicationOrder_nodup row.id)).1 takes).1
  constructor
  · intro e he
    obtain ⟨x, hx, fits⟩ := fits e (mem_inApplicationOrder.2 he)
    have found := keyed.identity?_eq_some.2 ⟨hx, fits.ident⟩
    refine ⟨x, found, ?_⟩
    rw [keyed.accepted_identity?, found, Option.map_some,
      Identity.under_of_mem (keyed.editsOf_nodup row.id) he fits.ident, after_eq fits.kept]
  · intro ident others
    rw [keyed.accepted_identity?]
    cases hx : s.identity? ident with
    | none => rfl
    | some x =>
      have : x.id = ident := (keyed.identity?_eq_some.1 hx).2
      rw [Option.map_some, Identity.under_of_forall_ne (by rwa [this])]
  · rfl
  · exact ⟨arises.logged.nextSeq_eq, hid.symm⟩
  · refine ⟨closedAt, ?_⟩
    rw [getEditgroup_eq, hid, accepted_editgroupRow?, hrow, Option.map_some,
      arises.accepted_changelogOf? writable, if_pos rfl, if_pos (beq_self_eq_true _)]
    simp only [found, Except.bind, headerOfRow_closed, hheader, Except.map]
    rw [hid]
    rfl
  · intro other hne
    rw [hid] at hne
    have row : (s.accepted row.id closedAt acceptedAt).editgroupRow? other =
        s.editgroupRow? other := keyed.accepted_editgroupRow?_of_ne hne
    refine ⟨row, ?_⟩
    rw [getEditgroup_eq, getEditgroup_eq, row, arises.accepted_changelogOf? writable, if_neg hne]
    rfl
  · refine List.map_congr_left fun e _ => ?_
    simp [hid]
  · rfl
  · rfl

end Accepted

end Store

namespace Catalog

/-- What acceptance means. An open editgroup that can be read is accepted exactly when the tables
    admit its edits; then all of them take effect, and nothing else changes but what records it.
    Otherwise nothing changes. An open editgroup that cannot be read has no edits; it is refused for
    its metadata. -/
theorem Reachable.accept_iff_admits {src : Source} {c : Catalog} (h : Reachable src c)
    {id : EditgroupId} (pending : c.HasOpen id) :
    ((∃ entry, (Operation.accept id).answer src c = .ok entry) ↔
        c.IsLegible id ∧ c.Admits (c.editsOf id)) ∧
      (∀ entry, (Operation.accept id).answer src c = .ok entry →
        ∃ group, c.getEditgroup id = .ok group ∧ group.edits = c.editsOf id ∧
          c.IsAccepted ((Operation.accept id).after src c).toStore group entry) ∧
      (∀ err, (Operation.accept id).answer src c = .error err →
        ((Operation.accept id).after src c).toStore = c.toStore) ∧
      (¬c.IsLegible id → c.editsOf id = [] ∧
        (Operation.accept id).answer src c = .error (.storage .undecodable)) := by
  have arises := h.arises
  have keyed := arises.keyed
  have admits := keyed.takesAll_iff_admits (keyed.editsOf_nodup id)
  refine ⟨?_, fun entry ok => ?_, fun err failed => Write.run_error failed, fun illegible => ?_⟩
  · rcases arises.answer_accept src id with ⟨ok, -, writable, takes⟩ | ⟨err, error, -, why⟩
    · exact iff_of_true ⟨_, ok⟩ ⟨(keyed.hasWritable_iff.1 writable).2, admits.1 takes⟩
    · refine iff_of_false ?_ ?_
      · rintro ⟨entry, ok⟩
        cases error.symm.trans ok
      · rintro ⟨legible, admitted⟩
        rcases why with closed | ⟨-, done, e, rest, stops, -⟩
        · exact closed (keyed.hasWritable_iff.2 ⟨pending, legible⟩)
        · exact stops.not_takesAll keyed (admits.2 admitted)
  · rcases arises.answer_accept src id with ⟨ok', after, writable, takes⟩ | ⟨err, error, -⟩
    · obtain rfl := Except.ok.inj (ok'.symm.trans ok)
      obtain ⟨group, read, -⟩ := keyed.pending_of_hasWritable writable
      rw [after]
      refine ⟨group, read, Store.edits_eq_of_getEditgroup read, ?_⟩
      exact arises.isAccepted read writable takes
    · cases error.symm.trans ok
  · refine ⟨List.eq_nil_iff_forall_not_mem.2 fun e he => ?_,
      keyed.accept_of_not_isLegible illegible src⟩
    exact illegible (arises.isLegible_of_edit he)

/-- An open editgroup that creates a work, merges another one into it, and deletes a third. -/
def mixed : Catalog := Catalog.empty.play .counting [
  ⟨.createEditor "someone"⟩, ⟨.autoaccept (.nth 0) (.work {})⟩, ⟨.autoaccept (.nth 0) (.work {})⟩,
  ⟨.createEditgroup (.nth 0) none .empty⟩, ⟨.createEntity (.nth 9) (.work {})⟩,
  ⟨.redirectEntity (.nth 9) (.nth 3) (.nth 11)⟩, ⟨.deleteEntity (.nth 9) (.nth 7)⟩]

theorem mixed_accept_iff_admits :
    ∃ group entry, mixed.getEditgroup (.nth 9) = .ok group ∧ mixed.Admits group.edits ∧
      (Operation.accept (.nth 9)).answer .counting mixed = .ok entry ∧
      mixed.IsAccepted ((Operation.accept (.nth 9)).after .counting mixed).toStore group entry := by
  have answers : ((Operation.accept (.nth 9)).answer .counting mixed).isOk = true := by
    decide +kernel
  obtain ⟨iff, effects, -⟩ := Reachable.accept_iff_admits
    (show Reachable .counting mixed from leads_play ..)
    (show mixed.HasOpen (.nth 9) by decide +kernel)
  cases answer : (Operation.accept (.nth 9)).answer .counting mixed with
  | error err =>
    rw [answer] at answers
    cases answers
  | ok entry =>
    obtain ⟨group, read, edits, accepted⟩ := effects entry answer
    exact ⟨group, entry, read, edits ▸ (iff.1 ⟨entry, answer⟩).2, rfl, accepted⟩

/-- An open editgroup without edits is not accepted, although there is nothing to be refused. -/
theorem deepDrawer_is_not_accepted :
    Reachable .counting deepDrawer ∧ deepDrawer.HasOpen (.nth 2) ∧
      deepDrawer.Admits (deepDrawer.editsOf (.nth 2)) ∧
      (Operation.accept (.nth 2)).answer .counting deepDrawer =
        .error (.storage .undecodable) := by
  have reachable : Reachable .counting deepDrawer := leads_play ..
  have none : deepDrawer.editsOf (.nth 2) = [] := by decide +kernel
  refine ⟨reachable, deepDrawer_hasOpen, ?_,
    reachable.arises.keyed.accept_of_not_isLegible deepDrawer_not_isLegible .counting⟩
  rw [none]
  exact ⟨fun _ he => (nomatch he), fun done e rest target order => by simp at order⟩

end Catalog

end Biblio
