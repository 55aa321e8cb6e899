import Biblio.Proofs.Working

/-! The editgroup that an editor works on.

    Which one that is stands with the editor, and no key of the tables holds on to it. It is open
    and the editor's own all the same: an editor takes up an editgroup when it is made, and whoever
    closes it makes the editor forget it. So an editor who asks for an editgroup to work on is told
    the same one until it is closed, and is given a new one then. -/

namespace Biblio

namespace Catalog

/-- The editgroup is closed in the course of a run. -/
def ClosedIn (src : Source) (c : Catalog) (run : List Event) (group : EditgroupId) : Prop :=
  ∃ before e later, run = before ++ e :: later ∧
    e.operation.Closes src (c.play src before) group

/-- The editgroup is given to the editor in the course of a run. -/
def GivenIn (src : Source) (c : Catalog) (run : List Event) (editor : EditorId)
    (group : EditgroupId) : Prop :=
  ∃ before later, run = before ++ ⟨.activeEditgroup editor⟩ :: later ∧
    Store.Opens src (c.play src before) editor group

section Runs
variable {src : Source} {c : Catalog} {run : List Event} {group : EditgroupId}

theorem closedIn_cons {e : Event} : c.ClosedIn src (e :: run) group ↔
    e.operation.Closes src c group ∨ (e.operation.after src c).ClosedIn src run group := by
  constructor
  · rintro ⟨before, e', later, split, closes⟩
    rcases List.cons_eq_append_iff.1 split with ⟨rfl, split⟩ | ⟨before, rfl, rfl⟩
    · obtain ⟨rfl, rfl⟩ := List.cons.inj split
      exact .inl closes
    · exact .inr ⟨before, e', later, rfl, closes⟩
  · rintro (closes | ⟨before, e', later, rfl, closes⟩)
    · exact ⟨[], e, run, rfl, closes⟩
    · exact ⟨e :: before, e', later, rfl, closes⟩

/-- A run in which nothing asks to close an editgroup does not close it. -/
theorem not_closedIn (spared : ∀ e ∈ run, e.operation.closing? ≠ some group) :
    ¬c.ClosedIn src run group := by
  rintro ⟨before, e, later, rfl, closing, -⟩
  exact spared e (List.mem_append_right _ List.mem_cons_self) closing

end Runs

end Catalog

open Catalog

namespace Store

section Runs
variable {src : Source} {c : Catalog} {run : List Event} {e : Editor} {group : EditgroupId}

/-- An editor works on an editgroup until it is closed. -/
theorem Arises.stays_in_run (arises : c.Arises) (he : e ∈ c.editors)
    (active : e.activeEditgroup = some group) (unclosed : ¬c.ClosedIn src run group) :
    e ∈ (c.play src run).editors := by
  induction run generalizing c with
  | nil => exact he
  | cons event run ih =>
    rw [closedIn_cons, not_or] at unclosed
    exact ih (arises.after src event.operation)
      (arises.stays src event.operation he active unclosed.1) unclosed.2

/-- An editor works on what that editor worked on before a run, or was given in its course. -/
theorem Arises.was_given_in_run (arises : c.Arises) (he : e ∈ (c.play src run).editors)
    (active : e.activeEditgroup = some group) :
    e ∈ c.editors ∨ c.GivenIn src run e.id group := by
  induction run generalizing c with
  | nil => exact .inl he
  | cons event run ih =>
    rcases ih (arises.after src event.operation) he with there | ⟨before, later, rfl, opens⟩
    · rcases arises.was_given src event.operation there active with old | ⟨asked, opens⟩
      · exact .inl old
      · exact .inr ⟨[], run, congrArg (· :: run) asked, opens⟩
    · exact .inr ⟨event :: before, later, rfl, opens⟩

/-- An editgroup that was closed stays closed. -/
theorem Arises.ended_in_run (arises : c.Arises) (closed : c.ClosedIn src run group) :
    ∃ g ∈ (c.play src run).editgroups, g.id = group ∧ g.status ≠ .pending := by
  obtain ⟨before, event, later, rfl, closes⟩ := closed
  have there := arises.becomes ((leads_play src before c).becomes arises)
  obtain ⟨g, hg, hid, ended⟩ := there.ended event.operation closes
  have behind := there.after src event.operation
  have retains := ((leads_play src later _).becomes behind).retains behind
  rw [play_append, play_cons]
  exact ⟨g, (retains.closed g hg ended).1, hid, ended⟩

/-- Nobody works on an editgroup that was closed. -/
theorem Arises.not_active_of_ended {s : Store} (arises : s.Arises) {g : EditgroupRow}
    (hg : g ∈ s.editgroups) (ended : g.status ≠ .pending) (he : e ∈ s.editors) :
    e.activeEditgroup ≠ some g.id := by
  intro active
  obtain ⟨g', hg', hid, -, pending⟩ := arises.works_on e he g.id active
  obtain rfl := arises.keyed.editgroup_unique hg' hg hid
  exact ended pending

/-- No two editors work on one editgroup. -/
theorem Arises.active_unique {s : Store} (arises : s.Arises) {f : Editor} (he : e ∈ s.editors)
    (hf : f ∈ s.editors) (active : e.activeEditgroup = some group)
    (active' : f.activeEditgroup = some group) : f = e := by
  obtain ⟨g, hg, hid, owned, -⟩ := arises.works_on e he group active
  obtain ⟨g', hg', hid', owned', -⟩ := arises.works_on f hf group active'
  obtain rfl := arises.keyed.editgroup_unique hg hg' (hid.trans hid'.symm)
  exact arises.keyed.editor_unique hf he (owned'.symm.trans owned)

/-- An editor who asked for an editgroup to work on works on the one that was told. -/
theorem Arises.active_of_answer (arises : c.Arises) {editor : EditorId}
    (ok : (Operation.activeEditgroup editor).answer src c = .ok group) :
    ∃ e ∈ ((Operation.activeEditgroup editor).after src c).editors,
      e.id = editor ∧ e.activeEditgroup = some group := by
  rcases arises.activeEditgroup_cases src editor with
    ⟨err, error, -⟩ | ⟨e, he, rfl, next, ⟨active, resumes⟩ | ⟨-, opens⟩⟩
  · cases error.symm.trans ok
  · obtain rfl := Except.ok.inj (resumes.answer.symm.trans ok)
    exact ⟨e, resumes.same.symm ▸ he, rfl, active⟩
  · obtain rfl := Except.ok.inj (opens.answer.symm.trans ok)
    rw [opens.tables]
    exact ⟨_, List.mem_map.2 ⟨e, he, if_pos (beq_self_eq_true _)⟩, rfl, rfl⟩

/-- An editgroup keeps its identifier and its metadata. -/
theorem Becomes.keeps_editgroup {s t : Store} (h : s.Becomes t) {g : EditgroupRow}
    (hg : g ∈ s.editgroups) : ∃ g' ∈ t.editgroups, g'.id = g.id ∧ g'.extra = g.extra := by
  induction h with
  | refl => exact ⟨g, hg, rfl, rfl⟩
  | tail _ step ih =>
    obtain ⟨k, step⟩ := step
    obtain ⟨g', hg', hid, extra⟩ := ih
    obtain ⟨g'', hg'', hid', extra'⟩ := step.keeps.editgroups g' hg'
    exact ⟨g'', hg'', hid'.trans hid, extra'.trans extra⟩

end Runs

end Store

namespace Catalog

open Store

variable {src : Source} {c : Catalog}

/-- What an editor has taken up can be worked on: it is open, and it was made without metadata. -/
theorem Reachable.active_hasWritable (h : Reachable src c) :
    ∀ e ∈ c.editors, ∀ group, e.activeEditgroup = some group → c.HasWritable group := by
  induction h with
  | stay =>
    intro e he
    cases he
  | @go c α op before ih =>
    intro e he group active
    have arises := Reachable.arises before
    have behind := arises.after src op
    obtain ⟨g, hg, hid, -, pending⟩ := behind.works_on e he group active
    refine ⟨g, hg, hid, pending, ?_⟩
    rcases arises.was_given src op he active with old | ⟨asked, opens⟩
    · obtain ⟨g', hg', hid', -, legible⟩ := ih e old group active
      have becomes := (arises.after_leadsBy src op).becomes
      obtain ⟨g'', hg'', hid'', extra⟩ := becomes.keeps_editgroup hg'
      obtain rfl := behind.keyed.editgroup_unique hg hg'' (hid.trans (hid''.trans hid').symm)
      rwa [EditgroupRow.IsLegible, extra]
    · cases asked
      have made : newEditgroup e.id none .empty group (src.time c.ticks) ∈
          ((Operation.activeEditgroup e.id).after src c).editgroups := by
        rw [opens.tables]
        exact List.mem_append_right _ (List.mem_singleton_self _)
      obtain rfl := behind.keyed.editgroup_unique hg made hid
      intro text htext
      cases htext

/-- An editor is told the editgroup that there is to work on. -/
theorem Reachable.resumes (h : Reachable src c) {e : Editor} (he : e ∈ c.editors)
    {group : EditgroupId} (active : e.activeEditgroup = some group) : Resumes src c e.id group :=
  h.arises.resumes src he active (h.active_hasWritable e he group active)

/-- An editor who works on nothing is given a new editgroup, unless the source repeats itself. -/
theorem Reachable.opens (h : Reachable src c) {e : Editor} (he : e ∈ c.editors)
    (idle : e.activeEditgroup = none) (fresh : src.IsFresh (c.drawn + 1)) :
    Opens src c e.id ⟨src.id c.drawn⟩ :=
  h.arises.opens he idle (find?_isNone_iff.1 (h.isDrawn.isNew fresh).editgroup)

section Runs
variable {run : List Event} {e : Editor} {group : EditgroupId}

/-- As long as an editgroup is not closed, the editor who works on it is told it again. -/
theorem Reachable.resumes_after (h : Reachable src c) (he : e ∈ c.editors)
    (active : e.activeEditgroup = some group) (unclosed : ¬c.ClosedIn src run group) :
    Resumes src (c.play src run) e.id group := by
  have there : Reachable src (c.play src run) := h.trans (leads_play ..)
  exact there.resumes (h.arises.stays_in_run he active unclosed) active

/-- The editor who worked on an editgroup that was closed is given another one, unless that has
    happened already. -/
theorem Reachable.opens_after (h : Reachable src c) (he : e ∈ c.editors)
    (active : e.activeEditgroup = some group) (closed : c.ClosedIn src run group)
    (fresh : src.IsFresh ((c.play src run).drawn + 1)) : ∃ next, next ≠ group ∧
      (Opens src (c.play src run) e.id next ∨
        Resumes src (c.play src run) e.id next ∧ c.GivenIn src run e.id next) := by
  have there : Reachable src (c.play src run) := h.trans (leads_play ..)
  obtain ⟨g, hg, rfl, ended⟩ := h.arises.ended_in_run closed
  -- the editor is still there, but works on something else or on nothing
  have ids := ((leads_play src run c).becomes h.arises).editor_ids
  obtain ⟨f, hf, hid⟩ := List.mem_map.1 (ids.subset (List.mem_map_of_mem he))
  cases active' : f.activeEditgroup with
  | none =>
    have opens := there.opens hf active' fresh
    exact ⟨_, (opens.new g hg).symm, .inl (hid ▸ opens)⟩
  | some next =>
    have other : next ≠ g.id := by
      rintro rfl
      exact there.arises.not_active_of_ended hg ended hf active'
    refine ⟨next, other, .inr ⟨hid ▸ there.resumes hf active', ?_⟩⟩
    rcases h.arises.was_given_in_run hf active' with old | given
    · obtain rfl := h.arises.keyed.editor_unique old he hid
      exact absurd (Option.some.inj (active'.symm.trans active)) other
    · exact hid ▸ given

end Runs

/-- An editor always works on nothing, or on an editgroup that is open and the editor's own, on
    which nobody else works. An editor who asks for one is told the one that there is, and nothing
    changes; or is given a new one if there is none. When an editgroup cannot be accepted, everybody
    goes on as before. So, whatever happens after an editor has asked: as long as the editgroup is
    neither accepted nor abandoned the editor is told the same one again. Afterwards the editor is
    given another one, which is new then, or was new when the editor asked for it in between. -/
theorem Reachable.active_editgroups_are_open_and_owned (h : Reachable src c) :
    (∀ e ∈ c.editors, ∀ group, e.activeEditgroup = some group →
      (∃ g ∈ c.editgroups, g.id = group ∧ g.editor = e.id ∧ g.status = .pending) ∧
        (∀ f ∈ c.editors, f.activeEditgroup = some group → f = e) ∧
        Resumes src c e.id group) ∧
      (∀ e ∈ c.editors, e.activeEditgroup = none → src.IsFresh (c.drawn + 1) →
        ∃ group, Opens src c e.id group) ∧
      (∀ group err, (Operation.accept group).answer src c = .error err →
        ((Operation.accept group).after src c).toStore = c.toStore) ∧
      ∀ editor group c', (Operation.activeEditgroup editor).perform src c = (.ok group, c') →
        ∀ run d, c'.play src run = d →
          (¬c'.ClosedIn src run group → Resumes src d editor group) ∧
          (c'.ClosedIn src run group → src.IsFresh (d.drawn + 1) → ∃ next, next ≠ group ∧
            (Opens src d editor next ∨
              Resumes src d editor next ∧ c'.GivenIn src run editor next)) := by
  refine ⟨fun e he group active => ?_, fun e he idle fresh => ⟨_, h.opens he idle fresh⟩,
    fun group err error => Write.run_error error, ?_⟩
  · exact ⟨h.arises.works_on e he group active,
      fun f hf active' => h.arises.active_unique he hf active active', h.resumes he active⟩
  · intro editor group c' performed run d played
    subst played
    obtain ⟨e, he, rfl, active⟩ := h.arises.active_of_answer (congrArg Prod.fst performed)
    have after : (Operation.activeEditgroup e.id).after src c = c' := congrArg Prod.snd performed
    have behind : Reachable src c' := after ▸ h.go _
    rw [after] at he
    exact ⟨behind.resumes_after he active, behind.opens_after he active⟩

/-- Two editors. -/
def office : Catalog := Catalog.empty.play .counting [
  ⟨.createEditor "someone"⟩, ⟨.createEditor "another"⟩]

/-- The example when the first of the editors has asked for an editgroup to work on. -/
def busyOffice : Catalog := (Operation.activeEditgroup (.nth 0)).after .counting office

/-- The other editor asks for an editgroup, too, and the first one drafts a work. -/
def officeWork : List Event := [
  ⟨.activeEditgroup (.nth 1)⟩, ⟨.createEntity (.nth 2) (.work {})⟩, ⟨.accept (.nth 4)⟩]

/-- The editgroup stays the same until it is accepted, and then there is a new one. -/
theorem office_active_editgroups_are_open_and_owned :
    Resumes .counting (busyOffice.play .counting officeWork) (.nth 0) (.nth 2) ∧
      ∃ next, next ≠ .nth 2 ∧ Opens .counting
        (busyOffice.play .counting (officeWork ++ [⟨.accept (.nth 2)⟩])) (.nth 0) next := by
  have reachable : Reachable .counting office := leads_play ..
  have asked : (Operation.activeEditgroup (.nth 0)).perform .counting office =
      (.ok (.nth 2), busyOffice) := Prod.ext (by decide +kernel) rfl
  have accepted : (Operation.accept (.nth 2)).answer .counting
      (busyOffice.play .counting officeWork) = .ok ⟨1, .nth 2, Source.counting.time 8⟩ := by
    decide +kernel
  obtain ⟨-, -, -, again⟩ := reachable.active_editgroups_are_open_and_owned
  refine ⟨(again _ _ _ asked officeWork _ rfl).1 (not_closedIn (by decide +kernel)), ?_⟩
  have fresh : Source.counting.IsFresh
      ((busyOffice.play .counting (officeWork ++ [⟨.accept (.nth 2)⟩])).drawn + 1) :=
    Source.counting_isFresh (by decide +kernel)
  obtain ⟨next, other, opens | ⟨resumes, -⟩⟩ := (again _ _ _ asked _ _ rfl).2
    ⟨officeWork, ⟨.accept (.nth 2)⟩, [], rfl, rfl, _, accepted⟩ fresh
  · exact ⟨next, other, opens⟩
  · exact absurd (congrArg (·.editgroups.length) resumes.same) (by decide +kernel)

end Catalog

end Biblio
