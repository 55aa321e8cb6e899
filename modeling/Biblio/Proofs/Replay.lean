import Biblio.Proofs.Operations
import Mathlib.Data.List.Chain

/-! The changelog explains the catalog.

    Two things are kept of what was accepted: the identities, which change, and the changelog with
    the edits of the editgroups in it. For each identity the second gives a chain of edits, each
    with the base that the one before it left, and the last of them left the identity as it is. -/

namespace Biblio

theorem Identity.state_eq_wip {x : Identity} : x.state = .wip ↔ x.isLive = false := by
  cases x with
  | mk _ _ _ redirect isLive isDeleted _ =>
    cases isLive <;> cases isDeleted <;> cases redirect <;> simp [state]

/-- An identity is what these edits made of it, one after the other. -/
structure Identity.IsMadeBy (x : Identity) (edits : List Edit) : Prop where
  /-- The first edit brings a revision to an identity that points nowhere. -/
  first : ∀ e, edits.head? = some e → e.base = (none, none) ∧ ∃ rev, e.action = .update rev
  /-- Each edit is based on what the one before it left, which was not a deletion. -/
  chain : edits.IsChain fun e f => f.base = e.result ∧ e.action ≠ .delete
  wip : x.state = .wip ↔ edits = []
  last : ∀ e, edits.getLast? = some e →
    x.pointer = e.result ∧ (x.isDeleted = true ↔ e.action = .delete)

/-- An edit that fits what edits made of an identity is based on what the last of them left. -/
theorem Identity.IsMadeBy.base_eq {x : Identity} {edits : List Edit} (h : x.IsMadeBy edits)
    {e f : Edit} (fits : e.Fits x) (last : edits.getLast? = some f) :
    e.base = f.result ∧ f.action ≠ .delete := by
  obtain ⟨pointer, deleted⟩ := h.last f last
  refine ⟨fits.base.symm.trans pointer, fun hact => ?_⟩
  have kept := fits.kept
  rw [deleted.2 hact] at kept
  cases kept

/-- An edit that fits what edits made of an identity carries on from them. -/
theorem Identity.IsMadeBy.concat {x : Identity} {edits : List Edit} (h : x.IsMadeBy edits)
    (shaped : x.IsShaped) {e : Edit} (fits : e.Fits x)
    (update : e.base = (none, none) → ∃ rev, e.action = .update rev) :
    (x.after e.action).IsMadeBy (edits ++ [e]) where
  first f hf := by
    cases edits with
    | nil =>
      obtain rfl : e = f := Option.some.inj hf
      have nowhere : e.base = (none, none) :=
        fits.base.symm.trans (shaped.unaccepted (Identity.state_eq_wip.1 (h.wip.2 rfl))).2
      exact ⟨nowhere, update nowhere⟩
    | cons d ds => exact h.first f hf
  chain := by
    refine List.isChain_append.2 ⟨h.chain, List.isChain_singleton e, fun f hf g hg => ?_⟩
    obtain rfl : e = g := Option.some.inj hg
    exact h.base_eq fits hf
  wip := by simp [Identity.state_eq_wip]
  last f hf := by
    obtain rfl : e = f := by simpa using hf
    refine ⟨Identity.after_pointer x e, ?_⟩
    rw [Identity.after_isDeleted, fits.kept]
    simp

namespace Store

/-- The accepted edits of an identity with their changelog entries, the oldest first. -/
def log (id : EntityId) (s : Store) : List (Edit × ChangelogEntry) :=
  s.sortedChangelog.flatMap fun entry =>
    ((s.editsOf entry.editgroup).filter (·.ident == id)).map (·, entry)

section Log
variable {s t : Store} {id : EntityId}

theorem Logged.log_eq (h : s.Logged) (id : EntityId) :
    s.log id = s.changelog.flatMap fun entry =>
      ((s.editsOf entry.editgroup).filter (·.ident == id)).map (·, entry) := by
  rw [log, h.sortedChangelog_eq]

theorem Logged.mem_log (h : s.Logged) {e : Edit} {entry : ChangelogEntry} :
    (e, entry) ∈ s.log id ↔
      entry ∈ s.changelog ∧ e ∈ s.edits ∧ e.editgroup = entry.editgroup ∧ e.ident = id := by
  simp only [h.log_eq, List.mem_flatMap, List.mem_map, List.mem_filter, mem_editsOf, beq_iff_eq,
    Prod.mk.injEq]
  constructor
  · rintro ⟨_, hentry, _, ⟨⟨he, hgroup⟩, hid⟩, rfl, rfl⟩
    exact ⟨hentry, he, hgroup, hid⟩
  · rintro ⟨hentry, he, hgroup, hid⟩
    exact ⟨entry, hentry, e, ⟨⟨he, hgroup⟩, hid⟩, rfl, rfl⟩

/-- Edits of editgroups that are not in the changelog make no difference. -/
theorem log_congr (changelog : t.changelog = s.changelog)
    (edits : ∀ entry ∈ s.changelog, t.editsOf entry.editgroup = s.editsOf entry.editgroup) :
    t.log id = s.log id := by
  have sorted : t.sortedChangelog = s.sortedChangelog := by
    rw [sortedChangelog, sortedChangelog, changelog]
  rw [log, log, sorted]
  refine List.flatMap_congr fun entry hentry => ?_
  rw [edits entry ((List.mergeSort_perm _ _).mem_iff.1 hentry)]

/-- Acceptance carries the log on by the edit of the identity, if there is one. -/
theorem Logged.log_accepted (h : s.Logged) (keyed : s.Keyed) {group : EditgroupId}
    (writable : s.HasWritable group) (closedAt acceptedAt : Instant) :
    (s.accepted group closedAt acceptedAt).log id = s.log id ++
      ((s.editsOf group).filter (·.ident == id)).map (·, ⟨s.nextSeq, group, acceptedAt⟩) := by
  rw [(h.accept keyed closedAt acceptedAt writable).log_eq, h.log_eq]
  simp only [accepted, List.flatMap_append, List.flatMap_singleton]
  rfl

/-- Only acceptance carries the log of an identity on, and only staging brings new identities. -/
theorem Change.log_cases {k : Deed} (arises : s.Arises) (step : Change s k t) :
    ((∀ id, t.log id = s.log id) ∧ t.changelog = s.changelog ∧
        (t.identities = s.identities ∨
          ∃ x e, s.MayStageNew x e ∧ t.identities = s.identities ++ [x])) ∨
      ∃ group closedAt acceptedAt, s.HasWritable group ∧
        s.TakesAll (inApplicationOrder (s.editsOf group)) ∧
        t = s.accepted group closedAt acceptedAt := by
  have unaltered : ∀ group, s.HasWritable group → ∀ entry ∈ s.changelog, entry.editgroup ≠ group :=
    fun group => arises.logged.not_entered arises.keyed
  cases step with
  | stageNew x e may =>
    refine .inl ⟨fun id => log_congr rfl fun entry hentry => ?_, rfl, .inr ⟨x, e, may, rfl⟩⟩
    exact editsOf_concat_of_ne (s := s) (unaltered _ may.group entry hentry)
  | stage x e may =>
    refine .inl ⟨fun id => log_congr rfl fun entry hentry => ?_, rfl, .inl rfl⟩
    exact editsOf_concat_of_ne (unaltered _ may.group entry hentry)
  | remove e staged writable =>
    refine .inl ⟨fun id => log_congr rfl fun entry hentry => ?_, rfl, .inl rfl⟩
    exact arises.keyed.editsOf_remove_of_ne staged (unaltered _ writable entry hentry)
  | accept group closedAt acceptedAt writable takes =>
    exact .inr ⟨group, closedAt, acceptedAt, writable, takes, rfl⟩
  | _ => exact .inl ⟨fun id => log_congr rfl fun _ _ => rfl, rfl, .inl rfl⟩

/-- Nothing was accepted of an identity that is not there. -/
theorem Arises.log_eq_nil (arises : s.Arises) (unknown : ∀ x ∈ s.identities, x.id ≠ id) :
    s.log id = [] := by
  rw [List.eq_nil_iff_forall_not_mem]
  rintro ⟨e, entry⟩ h
  obtain ⟨-, he, -, rfl⟩ := arises.logged.mem_log.1 h
  obtain ⟨x, hx, hid, -⟩ := (arises.grounded.edits e he).ident
  exact unknown x hx hid

/-- Every identity is what the edits in its log made of it. -/
theorem Arises.isMadeBy (arises : s.Arises) :
    ∀ x ∈ s.identities, x.IsMadeBy ((s.log x.id).map (·.1)) := by
  induction arises using Arises.induction with
  | empty => exact fun x hx => nomatch hx
  | @change s t k arises step ih =>
    rcases step.log_cases arises with
      ⟨same, -, identities | ⟨x, e, may, identities⟩⟩ |
        ⟨group, closedAt, acceptedAt, writable, takes, rfl⟩
    · intro x hx
      rw [same]
      exact ih x (identities ▸ hx)
    -- a new identity has no log yet
    · rw [identities]
      refine List.forall_mem_append.2 ⟨fun y hy => same y.id ▸ ih y hy, ?_⟩
      refine List.forall_mem_singleton.2 ?_
      rw [same, arises.log_eq_nil may.unknown]
      exact ⟨by simp, .nil, by simp [Identity.state_eq_wip, may.unaccepted.1], by simp⟩
    -- the log grows by the one edit of the identity that the editgroup has, if it has one
    · intro y hy
      obtain ⟨x, hx, rfl⟩ := List.mem_map.1 hy
      rw [Identity.under_id, arises.logged.log_accepted arises.keyed writable]
      have keyed := arises.keyed
      rcases takes.under_cases keyed (keyed.inApplicationOrder_nodup group) hx with
        ⟨unchanged, others⟩ | ⟨e, he, fits, changed⟩
      · have : (s.editsOf group).filter (·.ident == x.id) = [] := by
          rw [List.filter_eq_nil_iff]
          intro f hf
          simpa using others f (mem_inApplicationOrder.2 hf)
        rw [unchanged, this, List.map_nil, List.append_nil]
        exact ih x hx
      · have he := mem_inApplicationOrder.1 he
        rw [changed, fits.ident, filter_eq_singleton (keyed.editsOf_nodup group) he,
          List.map_append, ← fits.ident]
        exact (ih x hx).concat (arises.isShaped x hx) fits
          (arises.update_of_no_base e (mem_editsOf.1 he).1)

/-! ### Histories -/

/-- The log of an identity is in ascending order, with at most one edit for an entry. -/
theorem Arises.pairwise_log (arises : s.Arises) (id : EntityId) :
    (s.log id).Pairwise fun p q => p.2.seq < q.2.seq := by
  rw [arises.logged.log_eq, List.pairwise_flatMap]
  constructor
  · intro entry hentry
    rw [List.pairwise_map]
    have distinct := arises.keyed.editsOf_nodup entry.editgroup
    rw [List.Nodup, List.pairwise_map] at distinct
    refine (distinct.filter _).imp_of_mem fun {e f} he hf hne => ?_
    have he : e.ident = id := by simpa using (List.mem_filter.1 he).2
    have hf : f.ident = id := by simpa using (List.mem_filter.1 hf).2
    exact absurd (he.trans hf.symm) hne
  · refine arises.logged.pairwise_seq.imp fun hlt => ?_
    rintro p hp q hq
    obtain ⟨e, -, rfl⟩ := List.mem_map.1 hp
    obtain ⟨f, -, rfl⟩ := List.mem_map.1 hq
    exact hlt

theorem Arises.nodup_log (arises : s.Arises) (id : EntityId) : (s.log id).Nodup :=
  (arises.pairwise_log id).imp fun hlt heq => by rw [heq] at hlt; omega

/-- What a history is read from is the log, the newest edit first. -/
theorem Arises.acceptedEdits_eq (arises : s.Arises) (id : EntityId) :
    s.acceptedEdits id = (s.log id).reverse := by
  have unsorted : ((s.edits.filter (·.ident == id)).flatMap fun e =>
      (s.changelog.filter (·.editgroup == e.editgroup)).map fun x => (e, x)).Nodup := by
    rw [List.nodup_flatMap]
    constructor
    · intro e _
      have entries : s.changelog.Nodup := List.Nodup.of_map _ arises.logged.groups
      exact (entries.filter _).map fun x y h => (Prod.mk.inj h).2
    · have edits : s.edits.Nodup := List.Nodup.of_map _ arises.keyed.edits
      refine (edits.filter _).imp fun {e f} hne => ?_
      rintro p hp hq
      obtain ⟨x, -, rfl⟩ := List.mem_map.1 hp
      obtain ⟨y, -, heq⟩ := List.mem_map.1 hq
      exact hne (Prod.mk.inj heq).1.symm
  have perm : (s.acceptedEdits id).Perm (s.log id).reverse := by
    refine (List.mergeSort_perm _ _).trans ?_
    rw [List.perm_ext_iff_of_nodup unsorted (List.nodup_reverse.2 (arises.nodup_log id))]
    rintro ⟨e, x⟩
    rw [List.mem_reverse, arises.logged.mem_log]
    simp only [List.mem_flatMap, List.mem_map, List.mem_filter, beq_iff_eq, Prod.mk.injEq]
    constructor
    · rintro ⟨_, ⟨he, hid⟩, _, ⟨hx, hgroup⟩, rfl, rfl⟩
      exact ⟨hx, he, hgroup.symm, hid⟩
    · rintro ⟨hx, he, hgroup, hid⟩
      exact ⟨e, ⟨he, hid⟩, x, ⟨hx, hgroup.symm⟩, rfl, rfl⟩
  have sorted : (s.acceptedEdits id).Pairwise fun p q => decide (q.2.seq ≤ p.2.seq) = true :=
    List.pairwise_mergeSort (fun p q r hpq hqr => by simp only [decide_eq_true_eq] at *; omega)
      (fun p q => by simp only [Bool.or_eq_true, decide_eq_true_eq]; omega) _
  have descending : (s.log id).reverse.Pairwise fun p q => decide (q.2.seq ≤ p.2.seq) = true :=
    List.pairwise_reverse.2 ((arises.pairwise_log id).imp fun hlt =>
      by simpa using Int.le_of_lt hlt)
  have seqs : ((s.log id).map fun p => p.2.seq).Nodup :=
    List.pairwise_map.2 ((arises.pairwise_log id).imp fun hlt => by omega)
  -- no two numbers are the same, so that there is only one descending order
  refine List.Perm.eq_of_pairwise (fun p q hp hq hpq hqp => ?_) sorted descending perm
  simp only [decide_eq_true_eq] at hpq hqp
  exact List.inj_on_of_nodup_map seqs (List.mem_reverse.1 (perm.mem_iff.1 hp))
    (List.mem_reverse.1 hq) (by omega)

theorem mapM_historyEntry {pairs : List (Edit × ChangelogEntry)}
    (h : ∀ p ∈ pairs, ∃ header, s.getEditgroupHeader p.1.editgroup = .ok header ∧
      s.changelogOf? p.1.editgroup = some p.2) :
    ∃ entries, (pairs.mapM fun p => s.historyEntry p.1) = .ok entries ∧
      entries.map (fun h => (h.edit, h.changelog)) = pairs ∧
      ∀ h ∈ entries, s.getEditgroupHeader h.edit.editgroup = .ok h.editgroup := by
  induction pairs with
  | nil => exact ⟨[], rfl, rfl, fun _ h => nomatch h⟩
  | cons p ps ih =>
    obtain ⟨header, hheader, hentry⟩ := h p List.mem_cons_self
    obtain ⟨entries, hentries, hpairs, hheaders⟩ := ih fun q hq => h q (List.mem_cons_of_mem _ hq)
    have first : s.historyEntry p.1 = .ok ⟨p.1, header, p.2⟩ := by
      simp only [historyEntry, hheader, hentry, found, Except.ok_bind, Except.pure_eq]
    refine ⟨⟨p.1, header, p.2⟩ :: entries, ?_, by rw [List.map_cons, hpairs], ?_⟩
    · rw [List.mapM_cons, first, hentries]
      rfl
    · exact List.forall_mem_cons.2 ⟨hheader, hheaders⟩

/-- The history of an identity that is there is its log, the newest edit first. -/
theorem Arises.history_eq (arises : s.Arises) {x : Identity} (hx : x ∈ s.identities) :
    ∃ entries, s.history x.id = .ok entries ∧
      entries.map (fun h => (h.edit, h.changelog)) = (s.log x.id).reverse ∧
      ∀ h ∈ entries, s.getEditgroupHeader h.edit.editgroup = .ok h.editgroup := by
  have entered : ∀ p ∈ s.acceptedEdits x.id, ∃ header,
      s.getEditgroupHeader p.1.editgroup = .ok header ∧
        s.changelogOf? p.1.editgroup = some p.2 := by
    rintro ⟨e, entry⟩ h
    rw [arises.acceptedEdits_eq, List.mem_reverse] at h
    obtain ⟨hentry, -, hgroup, -⟩ := arises.logged.mem_log.1 h
    obtain ⟨header, hheader⟩ := arises.getEditgroupHeader hentry
    exact ⟨header, hgroup ▸ hheader, arises.logged.changelogOf?_eq_some.2 ⟨hentry, hgroup.symm⟩⟩
  obtain ⟨entries, hentries, hpairs, hheaders⟩ := mapM_historyEntry entered
  refine ⟨entries, ?_, hpairs.trans (arises.acceptedEdits_eq x.id), hheaders⟩
  rw [history, arises.keyed.getIdentity_eq_ok.2 ⟨hx, rfl⟩, Except.ok_bind]
  exact hentries

end Log

end Store

namespace Catalog

/-- The changelog explains the catalog: the log of an identity has the edits of it that belong to
    accepted editgroups, in the order in which those were accepted; the identity is what they made
    of it; and its history is the log, the newest edit first. -/
theorem Reachable.log_explains {src : Source} {c : Catalog} (h : Reachable src c) {x : Identity}
    (hx : x ∈ c.identities) :
    (∀ e, (∃ entry, (e, entry) ∈ c.log x.id) ↔ e ∈ c.edits ∧ e.ident = x.id ∧
        ∃ g ∈ c.editgroups, g.id = e.editgroup ∧ g.status = .accepted) ∧
      (∀ p ∈ c.log x.id, p.2 ∈ c.changelog ∧ p.2.editgroup = p.1.editgroup) ∧
      ((c.log x.id).Pairwise fun p q => p.2.seq < q.2.seq) ∧
      x.IsMadeBy ((c.log x.id).map (·.1)) ∧
      ∃ entries, c.history x.id = .ok entries ∧
        entries.map (fun h => (h.edit, h.changelog)) = (c.log x.id).reverse ∧
        (∀ h ∈ entries, c.getEditgroupHeader h.edit.editgroup = .ok h.editgroup) ∧
        entries.Pairwise fun h k => k.changelog.seq < h.changelog.seq := by
  have arises := h.arises
  have logged := arises.logged
  refine ⟨fun e => ⟨?_, ?_⟩, ?_, arises.pairwise_log x.id, arises.isMadeBy x hx, ?_⟩
  · rintro ⟨entry, hentry⟩
    obtain ⟨hentry, he, hgroup, hid⟩ := logged.mem_log.1 hentry
    obtain ⟨g, hg, hgid, accepted, -⟩ := logged.known entry hentry
    exact ⟨he, hid, g, hg, hgid.trans hgroup.symm, accepted⟩
  · rintro ⟨he, hid, g, hg, hgid, accepted⟩
    obtain ⟨entry, hentry, hgroup⟩ := logged.entered g hg accepted
    exact ⟨entry, logged.mem_log.2 ⟨hentry, he, hgid.symm.trans hgroup.symm, hid⟩⟩
  · rintro ⟨e, entry⟩ hp
    obtain ⟨hentry, -, hgroup, -⟩ := logged.mem_log.1 hp
    exact ⟨hentry, hgroup.symm⟩
  · obtain ⟨entries, hentries, hpairs, hheaders⟩ := arises.history_eq hx
    refine ⟨entries, hentries, hpairs, hheaders, ?_⟩
    have descending := List.pairwise_reverse.2 (arises.pairwise_log x.id)
    rwa [← hpairs, List.pairwise_map] at descending

/-- Two works, of which one is merged into the other and later gets a revision of its own again. -/
def unmerged : Catalog := Catalog.empty.play .counting [
  ⟨.createEditor "someone"⟩, ⟨.autoaccept (.nth 0) (.work {})⟩, ⟨.autoaccept (.nth 0) (.work {})⟩,
  ⟨.createEditgroup (.nth 0) none .empty⟩, ⟨.redirectEntity (.nth 9) (.nth 3) (.nth 7)⟩,
  ⟨.accept (.nth 9)⟩, ⟨.createEditgroup (.nth 0) none .empty⟩,
  ⟨.updateEntity (.nth 11) (.nth 3) (.work {})⟩, ⟨.accept (.nth 11)⟩]

theorem unmerged_log_explains :
    ∃ x ∈ unmerged.identities, x.id = .nth 3 ∧ x.revision = some (.nth 12) ∧
      x.IsMadeBy ((unmerged.log x.id).map (·.1)) ∧
      ∃ entries, unmerged.history x.id = .ok entries ∧
        entries.map (fun h => (h.edit, h.changelog)) = (unmerged.log x.id).reverse := by
  obtain ⟨x, hx, hid, hrev⟩ :
      ∃ x ∈ unmerged.identities, x.id = .nth 3 ∧ x.revision = some (.nth 12) := by
    decide +kernel
  obtain ⟨-, -, -, made, entries, hentries, hpairs, -⟩ := Reachable.log_explains
    (show Reachable .counting unmerged from leads_play ..) hx
  exact ⟨x, hx, hid, hrev, made, entries, hentries, hpairs⟩

end Catalog

end Biblio
