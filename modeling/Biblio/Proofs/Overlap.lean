import Biblio.Proofs.Replay

/-! Editgroups that overlap.

    An edit takes effect where its identity still points at its base, whatever was accepted of the
    identity in between. So an editgroup is kept from overwriting another one unless that one, as
    the last one in between, left the identity just where the edit expects it. -/

namespace Biblio

namespace Store

/-- The edits of an identity that were accepted since, with their changelog entries, the oldest
    first. -/
def acceptedSince (s t : Store) (id : EntityId) : List (Edit × ChangelogEntry) :=
  (t.log id).filter fun p => p.2 ∉ s.changelog

section Since
variable {s t : Store}

/-- A run carries the changelog and the logs on, and what it adds is new. -/
theorem Becomes.log_eq (h : s.Becomes t) (arises : s.Arises) (id : EntityId) :
    (∃ more, t.changelog = s.changelog ++ more) ∧
      ∃ more, t.log id = s.log id ++ more ∧ ∀ p ∈ more, p.2 ∉ s.changelog := by
  induction h with
  | refl => exact ⟨⟨[], by simp⟩, [], by simp, by simp⟩
  | @tail t u before step ih =>
    obtain ⟨k, step⟩ := step
    obtain ⟨⟨entries, hentries⟩, more, hmore, new⟩ := ih
    have there := arises.becomes before
    rcases step.log_cases there with
      ⟨same, changelog, -⟩ | ⟨group, closedAt, acceptedAt, writable, -, rfl⟩
    · exact ⟨⟨entries, changelog.trans hentries⟩, more, (same id).trans hmore, new⟩
    · refine ⟨⟨entries ++ [⟨t.nextSeq, group, acceptedAt⟩], ?_⟩,
        more ++ ((t.editsOf group).filter (·.ident == id)).map (·, ⟨t.nextSeq, group, acceptedAt⟩),
        ?_, List.forall_mem_append.2 ⟨new, ?_⟩⟩
      · rw [← List.append_assoc, ← hentries]
        rfl
      · rw [there.logged.log_accepted there.keyed writable, hmore, List.append_assoc]
      · rintro p hp old
        obtain ⟨e, -, rfl⟩ := List.mem_map.1 hp
        have := there.logged.lt_nextSeq (hentries ▸ List.mem_append_left entries old)
        simp at this

theorem Becomes.acceptedSince_eq (h : s.Becomes t) (arises : s.Arises) (id : EntityId) :
    t.log id = s.log id ++ s.acceptedSince t id := by
  obtain ⟨-, more, hmore, new⟩ := h.log_eq arises id
  have old : (s.log id).filter (fun p => p.2 ∉ s.changelog) = [] := by
    rw [List.filter_eq_nil_iff]
    rintro ⟨e, entry⟩ hp
    simpa using (arises.logged.mem_log.1 hp).1
  have all : more.filter (fun p => p.2 ∉ s.changelog) = more := by
    rw [List.filter_eq_self]
    simpa using new
  rw [acceptedSince, hmore, List.filter_append, old, all, List.nil_append]

/-- What was accepted last of an identity since was accepted last of it at all. -/
theorem Becomes.getLast_log (h : s.Becomes t) (arises : s.Arises) {id : EntityId}
    {p : Edit × ChangelogEntry} (last : (s.acceptedSince t id).getLast? = some p) :
    ((t.log id).map (·.1)).getLast? = some p.1 := by
  rw [List.getLast?_map, h.acceptedSince_eq arises, List.getLast?_append, last]
  rfl

/-- An edit that takes effect among others was based on what was accepted last since. -/
theorem Becomes.base_eq (h : s.Becomes t) (arises : s.Arises) {edits : List Edit}
    (distinct : (edits.map (·.ident)).Nodup) (takes : t.TakesAll edits) {e : Edit} (he : e ∈ edits)
    {p : Edit × ChangelogEntry} (last : (s.acceptedSince t e.ident).getLast? = some p) :
    p.1.result = e.base ∧ p.1.action ≠ .delete := by
  obtain ⟨x, hx, fits⟩ := ((takesAll_iff distinct).1 takes).1 e he
  have made := (arises.becomes h).isMadeBy x hx
  obtain ⟨base, kept⟩ := made.base_eq fits (h.getLast_log arises (fits.ident ▸ last))
  exact ⟨base.symm, kept⟩

/-- If the edits stop at a redirect, all others were passed. -/
theorem StopsAt.mem_done {group : EditgroupId} {done rest : List Edit} {e f : Edit}
    (stops : t.StopsAt group done f rest) (redirects : f.action.isRedirect = true)
    (he : e ∈ t.editsOf group) (plain : e.action.isRedirect = false) : e ∈ done := by
  have order := stops.order
  have mem : e ∈ (t.editsOf group).filter (!·.action.isRedirect) :=
    List.mem_filter.2 ⟨he, by simp [plain]⟩
  rcases List.append_eq_append_iff.1 order with ⟨more, hmore, -⟩ | ⟨more, hmore, htail⟩
  · exact hmore ▸ List.mem_append_left _ mem
  · cases more with
    | nil => rwa [hmore, List.append_nil] at mem
    | cons g gs =>
      obtain ⟨rfl, -⟩ := List.cons.inj htail
      have : f ∈ (t.editsOf group).filter (!·.action.isRedirect) := hmore ▸ by simp
      simp [redirects] at this

end Since

end Store

namespace Catalog

/-- Editgroups that overlap. Let an editgroup hold an edit of an identity of which other edits were
    accepted since some earlier point of the run, such as the one when the edit was staged. If the
    editgroup is accepted, then the last of these left the identity pointing where the edit is based
    on. If it did not, or deleted the identity, then nothing is accepted, and the failure is a
    conflict on an identity that the editgroup edits, or, for a redirect, that it is not allowed. -/
theorem Reachable.accept_after_overlap {src : Source} {c d : Catalog} (h : Reachable src c)
    (run : Leads src c d) {e : Edit} (held : e ∈ d.edits) {p : Edit × ChangelogEntry}
    (last : (c.acceptedSince d.toStore e.ident).getLast? = some p) :
    ((∃ entry, (Operation.accept e.editgroup).answer src d = .ok entry) →
        p.1.result = e.base ∧ p.1.action ≠ .delete) ∧
      (∀ group, d.getEditgroup e.editgroup = .ok group → group.status = .pending →
        p.1.result ≠ e.base ∨ p.1.action = .delete →
        ((Operation.accept e.editgroup).after src d).toStore = d.toStore ∧
        ∃ err, (Operation.accept e.editgroup).answer src d = .error err ∧
          ((∃ f ∈ d.editsOf e.editgroup, ∃ how, err = .conflict f.ident how) ∨
            e.action.isRedirect = true ∧ err.IsRedirectFault)) := by
  have arises := h.arises
  have becomes := run.becomes arises
  have there := arises.becomes becomes
  have he : e ∈ d.editsOf e.editgroup := Store.mem_editsOf.2 ⟨held, rfl⟩
  have distinct := there.keyed.inApplicationOrder_nodup e.editgroup
  have fresh : d.TakesAll (Store.inApplicationOrder (d.editsOf e.editgroup)) →
      p.1.result = e.base ∧ p.1.action ≠ .delete := fun takes =>
    becomes.base_eq arises distinct takes (Store.mem_inApplicationOrder.2 he) last
  rcases there.answer_accept src e.editgroup with
    ⟨ok, -, -, takes⟩ | ⟨err, error, same, closed | ⟨writable, done, f, rest, stops, refused⟩⟩
  · refine ⟨fun _ => fresh takes, fun group read pending stale => ?_⟩
    obtain ⟨result, kept⟩ := fresh takes
    rcases stale with stale | deleted
    · exact absurd result stale
    · exact absurd deleted kept
  · refine ⟨?_, fun group read pending _ => ?_⟩
    · rintro ⟨entry, ok⟩
      cases error.symm.trans ok
    · exact absurd (there.keyed.hasWritable_of_pending read pending) closed
  · refine ⟨?_, fun group read pending stale => ⟨same, err, error, ?_⟩⟩
    · rintro ⟨entry, ok⟩
      cases error.symm.trans ok
    rcases refused with ⟨how, rfl⟩ | ⟨redirects, fault⟩
    · refine .inl ⟨f, Store.mem_inApplicationOrder.1 ?_, how, rfl⟩
      rw [stops.order]
      exact List.mem_append_right _ List.mem_cons_self
    · refine .inr ⟨?_, fault⟩
      -- an edit that is no redirect would have been passed, though its base is stale
      by_contra plain
      have passed := stops.mem_done redirects he (by simpa using plain)
      have before : (done.map (·.ident)).Nodup := by
        rw [stops.order, List.map_append] at distinct
        exact (List.nodup_append.1 distinct).1
      obtain ⟨result, kept⟩ := becomes.base_eq arises before stops.takes passed last
      rcases stale with stale | deleted
      · exact stale result
      · exact kept deleted

/-- A work and two open editgroups, of which the second one holds its deletion. -/
def overlapping : Catalog := Catalog.empty.play .counting [
  ⟨.createEditor "someone"⟩, ⟨.autoaccept (.nth 0) (.work {})⟩,
  ⟨.createEditgroup (.nth 0) none .empty⟩, ⟨.createEditgroup (.nth 0) none .empty⟩,
  ⟨.deleteEntity (.nth 6) (.nth 3)⟩]

/-- The first editgroup brings the work the revision that it has, and is accepted. -/
def overlapped : Catalog := overlapping.play .counting [
  ⟨.stageEdit (.nth 5) (.existing (.nth 3)) (some (.nth 2)) (.update (.nth 2))⟩,
  ⟨.accept (.nth 5)⟩]

theorem overlapped_accept_after_overlap :
    ∃ e ∈ overlapped.edits, e ∈ overlapping.edits ∧ e.editgroup = .nth 6 ∧
      ∃ p, (overlapping.acceptedSince overlapped.toStore e.ident).getLast? = some p ∧
        p.1.result = e.base ∧ p.1.action ≠ .delete := by
  have reachable : Reachable .counting overlapping := leads_play ..
  have run : Leads .counting overlapping overlapped := leads_play ..
  have arises := Reachable.arises (reachable.trans run)
  obtain ⟨e, he, staged, hgroup, entry, hentry, new, f, hf, hfgroup, hident⟩ :
      ∃ e ∈ overlapped.edits, e ∈ overlapping.edits ∧ e.editgroup = .nth 6 ∧
        ∃ entry ∈ overlapped.changelog, entry ∉ overlapping.changelog ∧
          ∃ f ∈ overlapped.edits, f.editgroup = entry.editgroup ∧ f.ident = e.ident := by
    decide +kernel
  have accepts : ((Operation.accept (.nth 6)).answer .counting overlapped).isOk = true := by
    decide +kernel
  have since : (f, entry) ∈ overlapping.acceptedSince overlapped.toStore e.ident :=
    List.mem_filter.2 ⟨arises.logged.mem_log.2 ⟨hentry, hf, hfgroup, hident⟩, by simpa using new⟩
  cases last : (overlapping.acceptedSince overlapped.toStore e.ident).getLast? with
  | none =>
    rw [List.getLast?_eq_none_iff.1 last] at since
    cases since
  | some p =>
    cases answer : (Operation.accept (.nth 6)).answer .counting overlapped with
    | error err => rw [answer] at accepts; cases accepts
    | ok entry =>
      refine ⟨e, he, staged, hgroup, p, last, ?_⟩
      exact (Reachable.accept_after_overlap reachable run he last).1 ⟨entry, hgroup ▸ answer⟩

/-- Two works and two open editgroups, of which the second one merges one work into the other. -/
def merging : Catalog := Catalog.empty.play .counting [
  ⟨.createEditor "someone"⟩, ⟨.autoaccept (.nth 0) (.work {})⟩, ⟨.autoaccept (.nth 0) (.work {})⟩,
  ⟨.createEditgroup (.nth 0) none .empty⟩, ⟨.createEditgroup (.nth 0) none .empty⟩,
  ⟨.redirectEntity (.nth 10) (.nth 3) (.nth 7)⟩]

/-- The first editgroup deletes both works, and is accepted. -/
def deleting : Catalog := merging.play .counting [
  ⟨.deleteEntity (.nth 9) (.nth 3)⟩, ⟨.deleteEntity (.nth 9) (.nth 7)⟩, ⟨.accept (.nth 9)⟩]

/-- An edit that was accepted in between can go unnoticed, and if it does not, the failure need not
    be a conflict. -/
theorem overlap_goes_unnoticed :
    (¬∀ (src : Source) (c d : Catalog) (e : Edit), Reachable src c → Leads src c d →
        e ∈ c.edits → e ∈ d.edits → (∃ x ∈ c.identities, x.id = e.ident ∧ x.isLive = true) →
        (∃ entry, (Operation.accept e.editgroup).answer src d = .ok entry) →
        ∀ entry ∈ d.changelog, entry ∉ c.changelog →
          ∀ f ∈ d.edits, f.editgroup = entry.editgroup → f.ident ≠ e.ident) ∧
      ¬∀ (src : Source) (c d : Catalog) (e : Edit), Reachable src c → Leads src c d →
        e ∈ c.edits → e ∈ d.edits → d.HasWritable e.editgroup →
        (∃ entry ∈ d.changelog, entry ∉ c.changelog ∧
          ∃ f ∈ d.edits, f.editgroup = entry.editgroup ∧ f.ident = e.ident) →
        ∃ ident how,
          (Operation.accept e.editgroup).answer src d = .error (.conflict ident how) := by
  constructor
  · intro claim
    obtain ⟨e, staged, held, hgroup, live, entry, hentry, new, f, hf, hfgroup, hident⟩ :
        ∃ e ∈ overlapping.edits, e ∈ overlapped.edits ∧ e.editgroup = .nth 6 ∧
          (∃ x ∈ overlapping.identities, x.id = e.ident ∧ x.isLive = true) ∧
          ∃ entry ∈ overlapped.changelog, entry ∉ overlapping.changelog ∧
            ∃ f ∈ overlapped.edits, f.editgroup = entry.editgroup ∧ f.ident = e.ident := by
      decide +kernel
    have accepts : ((Operation.accept (.nth 6)).answer .counting overlapped).isOk = true := by
      decide +kernel
    refine claim .counting overlapping overlapped e (leads_play ..) (leads_play ..) staged held live
      ?_ entry hentry new f hf hfgroup hident
    cases answer : (Operation.accept (.nth 6)).answer .counting overlapped with
    | error err => rw [answer] at accepts; cases accepts
    | ok entry => exact ⟨entry, hgroup ▸ answer⟩
  · intro claim
    obtain ⟨e, staged, held, hgroup, overlap⟩ :
        ∃ e ∈ merging.edits, e ∈ deleting.edits ∧ e.editgroup = .nth 10 ∧
          ∃ entry ∈ deleting.changelog, entry ∉ merging.changelog ∧
            ∃ f ∈ deleting.edits, f.editgroup = entry.editgroup ∧ f.ident = e.ident := by
      decide +kernel
    have writable : deleting.HasWritable e.editgroup := by
      have status : (deleting.getEditgroup (.nth 10)).map (·.status) = .ok .pending := by
        decide +kernel
      cases read : deleting.getEditgroup (.nth 10) with
      | error err => rw [read] at status; cases status
      | ok group =>
        rw [read] at status
        have reachable : Reachable .counting merging := leads_play ..
        have run : Leads .counting merging deleting := leads_play ..
        have arises := Reachable.arises (reachable.trans run)
        exact hgroup ▸ arises.keyed.hasWritable_of_pending read (Except.ok.inj status)
    have gone : (Operation.accept (.nth 10)).answer .counting deleting =
        .error (.gone (.redirectTarget (.nth 7))) := by
      decide +kernel
    obtain ⟨ident, how, conflict⟩ := claim .counting merging deleting e (leads_play ..)
      (leads_play ..) staged held writable overlap
    rw [hgroup, gone] at conflict
    cases conflict

end Catalog

end Biblio
