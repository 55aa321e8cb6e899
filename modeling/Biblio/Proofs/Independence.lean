import Biblio.Proofs.Acceptance

/-! Editgroups that have nothing to do with each other.

    Acceptance looks at identities that are edited, at those that redirects lead to, and at all that
    redirect to the edited ones. Of the last, an edit takes one away or adds one only if it names
    the identity as the old or the new target. So the footprint of an editgroup is made of the
    identities that its edits name, and editgroups with disjoint footprints can be accepted in
    either order. -/

namespace Biblio

/-- The identities that an edit names: the one edited, a new redirect target and the former one. -/
def Edit.touched (e : Edit) : List EntityId :=
  e.ident :: (e.action.target?.toList ++ e.previousRedirect.toList)

namespace Edit
variable {e : Edit} {id : EntityId}

theorem ident_mem_touched : e.ident ∈ e.touched := List.mem_cons_self

theorem mem_touched_of_target (h : e.action.target? = some id) : id ∈ e.touched :=
  List.mem_cons_of_mem _ (List.mem_append_left _ (Option.mem_toList.2 h))

theorem mem_touched_of_previousRedirect (h : e.previousRedirect = some id) : id ∈ e.touched :=
  List.mem_cons_of_mem _ (List.mem_append_right _ (Option.mem_toList.2 h))

end Edit

/-- Whether an operation succeeds, or how it fails. -/
def Operation.outcome {α : Type} (op : Operation α) (src : Source) (c : Catalog) :
    Except CatalogError Unit :=
  (op.answer src c).map fun _ => ()

namespace Store

/-- The identities that the edits of an editgroup name. -/
def footprint (s : Store) (group : EditgroupId) : List EntityId :=
  (s.editsOf group).flatMap (·.touched)

theorem mem_footprint {s : Store} {group : EditgroupId} {id : EntityId} :
    id ∈ s.footprint group ↔ ∃ e ∈ s.editsOf group, id ∈ e.touched :=
  List.mem_flatMap

/-! ### What edits of other identities leave alone -/

section Spared
variable {s : Store} {edits : List Edit} {id : EntityId}

theorem getIdentity_written (spared : ∀ f ∈ edits, id ∉ f.touched) :
    (s.written edits).getIdentity id = s.getIdentity id := by
  rw [getIdentity, getIdentity, identity?_written]
  cases hx : s.identity? id with
  | none => rfl
  | some x =>
    have hid : x.id = id := by simpa using List.find?_some hx
    have others : ∀ f ∈ edits, f.ident ≠ x.id := fun f hf same =>
      spared f hf (same.trans hid ▸ Edit.ident_mem_touched)
    rw [Option.map_some, Identity.under_of_forall_ne others]

/-- What redirects to an identity is not changed by edits that fit and do not name it. -/
theorem Keyed.inboundRedirects_written (keyed : s.Keyed)
    (fitAll : ∀ f ∈ edits, ∃ x ∈ s.identities, f.Fits x)
    (spared : ∀ f ∈ edits, id ∉ f.touched) :
    (s.written edits).inboundRedirects id = s.inboundRedirects id := by
  have cases : ∀ x ∈ s.identities,
      x.under edits = x ∨ x.redirect ≠ some id ∧ (x.under edits).redirect ≠ some id := by
    intro x hx
    rcases Identity.under_cases edits x with ⟨same, -⟩ | ⟨f, hf, hid, changed⟩
    · exact .inl same
    · obtain ⟨y, hy, fits⟩ := fitAll f hf
      obtain rfl := keyed.identity_unique hx hy (hid.trans fits.ident.symm)
      have base : x.redirect = f.previousRedirect := congrArg Prod.snd fits.base
      refine .inr ⟨fun old => ?_, fun new => ?_⟩
      · exact spared f hf (Edit.mem_touched_of_previousRedirect (base ▸ old))
      · rw [changed, Identity.after_redirect] at new
        exact spared f hf (Edit.mem_touched_of_target new)
  -- so the filter lets the same rows through, and none of them was edited
  have passes : ∀ x ∈ s.identities,
      ((fun x : Identity => x.redirect == some id && x.isLive && !x.isDeleted) ∘
        Identity.under edits) x = (x.redirect == some id && x.isLive && !x.isDeleted) := by
    intro x hx
    rcases cases x hx with same | ⟨old, new⟩
    · simp [same]
    · simp [beq_eq_false_iff_ne.2 old, beq_eq_false_iff_ne.2 new]
  have unchanged : ∀ x ∈ s.inboundRedirects id, x.under edits = x := by
    intro x hx
    obtain ⟨hx, redirects⟩ := List.mem_filter.1 hx
    rcases cases x hx with same | ⟨old, -⟩
    · exact same
    · simp [old] at redirects
  calc (s.written edits).inboundRedirects id
    _ = (s.inboundRedirects id).map (·.under edits) := by
      rw [inboundRedirects, Store.written, List.filter_map, List.filter_congr passes,
        inboundRedirects]
    _ = s.inboundRedirects id := by rw [List.map_congr_left unchanged, List.map_id']

/-- What an edit is refused for is read from the identity edited, the target, and what redirects to
    the identity. -/
theorem refusal?_congr {t : Store} {e : Edit}
    (ident : s.getIdentity e.ident = t.getIdentity e.ident)
    (target : ∀ id, e.action.target? = some id → s.getIdentity id = t.getIdentity id)
    (inbound : s.inboundRedirects e.ident = t.inboundRedirects e.ident) :
    s.refusal? e = t.refusal? e := by
  have check : s.checkRedirect e = t.checkRedirect e := by
    cases hact : e.action with
    | redirect id =>
      have target := target id (by rw [hact]; rfl)
      simp only [checkRedirect, hact, checkRedirectTarget, target, checkNoInbound, inbound]
    | _ => simp only [checkRedirect, hact]
  simp only [refusal?, ident, check]

/-- An edit is refused for the same reason behind edits that fit and name other identities. -/
theorem Keyed.refusal?_written (keyed : s.Keyed) {e : Edit}
    (fitAll : ∀ f ∈ edits, ∃ x ∈ s.identities, f.Fits x)
    (spared : ∀ f ∈ edits, ∀ id ∈ e.touched, id ∉ f.touched) :
    (s.written edits).refusal? e = s.refusal? e := by
  refine refusal?_congr ?_ (fun id target => ?_) ?_
  · exact getIdentity_written fun f hf => spared f hf _ Edit.ident_mem_touched
  · exact getIdentity_written fun f hf => spared f hf _ (Edit.mem_touched_of_target target)
  · exact keyed.inboundRedirects_written fitAll fun f hf => spared f hf _ Edit.ident_mem_touched

theorem written_comm {more : List Edit} (distinct : ((edits ++ more).map (·.ident)).Nodup) :
    (s.written edits).written more = (s.written more).written edits := by
  have swapped : ((more ++ edits).map (·.ident)).Nodup :=
    (List.perm_append_comm.map _).nodup_iff.1 distinct
  rw [written_written distinct, written_written swapped,
    written_of_perm distinct List.perm_append_comm]

/-- Edits are refused for the same reason behind others that fit and name other identities. -/
theorem Keyed.firstRefusal?_written {more : List Edit} (keyed : s.Keyed)
    (distinct : ((edits ++ more).map (·.ident)).Nodup)
    (fitAll : ∀ f ∈ edits, ∃ x ∈ s.identities, f.Fits x)
    (spared : ∀ f ∈ edits, ∀ e ∈ more, ∀ id ∈ e.touched, id ∉ f.touched) :
    (s.written edits).firstRefusal? more = s.firstRefusal? more := by
  induction more generalizing s with
  | nil => rfl
  | cons e es ih =>
    have here : ((edits ++ [e]).map (·.ident)).Nodup :=
      distinct.sublist (((List.Sublist.cons_cons e es.nil_sublist).append_left edits).map _)
    have behind : ((edits ++ es).map (·.ident)).Nodup :=
      distinct.sublist (((List.sublist_cons_self e es).append_left edits).map _)
    have other : ∀ f ∈ edits, ∀ g ∈ [e], g.ident ≠ f.ident := by
      intro f hf g hg same
      obtain rfl := List.mem_singleton.1 hg
      exact spared f hf g List.mem_cons_self _ Edit.ident_mem_touched
        (same ▸ Edit.ident_mem_touched)
    have still : ∀ f ∈ edits, ∃ x ∈ (s.written [e]).identities, f.Fits x := fun f hf =>
      (exists_fits_written (other f hf)).2 (fitAll f hf)
    -- the edit may as well be written before the others, whose bases it leaves alone
    rw [firstRefusal?, firstRefusal?, written_comm here,
      keyed.refusal?_written fitAll fun f hf => spared f hf e List.mem_cons_self,
      ih (keyed.written [e]) behind still fun f hf g hg =>
        spared f hf g (List.mem_cons_of_mem _ hg)]

end Spared

/-! ### Acceptances -/

/-- What edits are refused for is a matter of the identities. -/
theorem firstRefusal?_congr {s t : Store} (same : s.identities = t.identities)
    (edits : List Edit) : s.firstRefusal? edits = t.firstRefusal? edits := by
  induction edits generalizing s t with
  | nil => rfl
  | cons e es ih =>
    have get : ∀ id, s.getIdentity id = t.getIdentity id := fun id => by
      rw [getIdentity, getIdentity, identity?, identity?, same]
    have refusal : s.refusal? e = t.refusal? e :=
      refusal?_congr (get _) (fun id _ => get id)
        (by rw [inboundRedirects, inboundRedirects, same])
    have next : (s.written [e]).identities = (t.written [e]).identities := by
      rw [written, written, same]
    rw [firstRefusal?, firstRefusal?, refusal, ih next]

/-- Tables that differ at most in the changelog and in when editgroups were closed. -/
structure AgreesWith (s t : Store) : Prop where
  editors : s.editors = t.editors
  editgroups : (s.editgroups.map fun g => { g with closedAt := none }) =
    t.editgroups.map fun g => { g with closedAt := none }
  revisions : s.revisions = t.revisions
  identities : s.identities = t.identities
  edits : s.edits = t.edits

theorem AgreesWith.refl (s : Store) : s.AgreesWith s := ⟨rfl, rfl, rfl, rfl, rfl⟩

section Groups
variable {s : Store} {group other : EditgroupId} {closedAt acceptedAt : Instant}

/-- Editgroups that have no identity in common. -/
def Apart (s : Store) (group other : EditgroupId) : Prop :=
  group ≠ other ∧ (s.footprint group).Disjoint (s.footprint other)

theorem Apart.symm (h : s.Apart group other) : s.Apart other group :=
  ⟨h.1.symm, fun _ hid hid' => h.2 hid' hid⟩

theorem Apart.spared (h : s.Apart group other) :
    ∀ f ∈ inApplicationOrder (s.editsOf group), ∀ e ∈ inApplicationOrder (s.editsOf other),
      ∀ id ∈ e.touched, id ∉ f.touched := fun f hf e he _ hid hid' =>
  h.2 (mem_footprint.2 ⟨f, mem_inApplicationOrder.1 hf, hid'⟩)
    (mem_footprint.2 ⟨e, mem_inApplicationOrder.1 he, hid⟩)

theorem Apart.nodup (h : s.Apart group other) (keyed : s.Keyed) :
    ((inApplicationOrder (s.editsOf group) ++ inApplicationOrder (s.editsOf other)).map
      (·.ident)).Nodup := by
  rw [List.map_append, List.nodup_append]
  refine ⟨keyed.inApplicationOrder_nodup group, keyed.inApplicationOrder_nodup other, ?_⟩
  rintro _ hid _ hid' rfl
  obtain ⟨f, hf, rfl⟩ := List.mem_map.1 hid
  obtain ⟨e, he, same⟩ := List.mem_map.1 hid'
  exact h.spared f hf e he _ Edit.ident_mem_touched (same ▸ Edit.ident_mem_touched)

/-- The acceptance of an editgroup makes no difference to whether another one with other identities
    is accepted, nor to why not. -/
theorem Apart.acceptRefusal?_accepted (apart : s.Apart group other) (keyed : s.Keyed)
    (takes : s.TakesAll (inApplicationOrder (s.editsOf group))) :
    (s.accepted group closedAt acceptedAt).acceptRefusal? other = s.acceptRefusal? other := by
  have row : (s.accepted group closedAt acceptedAt).editgroupRow? other =
      s.editgroupRow? other := keyed.accepted_editgroupRow?_of_ne apart.1.symm
  have edits : (s.accepted group closedAt acceptedAt).editsOf other = s.editsOf other := rfl
  have fitAll := ((takesAll_iff (keyed.inApplicationOrder_nodup group)).1 takes).1
  have refusal := keyed.firstRefusal?_written (apart.nodup keyed) fitAll apart.spared
  have same : (s.accepted group closedAt acceptedAt).identities =
      (s.written (inApplicationOrder (s.editsOf group))).identities := rfl
  simp only [acceptRefusal?, requireOpen, getEditgroupHeader, row, edits,
    firstRefusal?_congr same, refusal]

/-- Two acceptances leave the same in either order. -/
theorem Apart.accepted_comm (apart : s.Apart group other) (keyed : s.Keyed)
    (t t' u u' v v' w w' : Instant) :
    ((s.accepted group t t').accepted other u u').AgreesWith
      ((s.accepted other v v').accepted group w w') where
  editors := by
    simp only [accepted, closed, changeWhere, List.map_map, written]
    refine List.map_congr_left fun e _ => ?_
    by_cases h : e.activeEditgroup = some group
    · simp [h, apart.1]
    · by_cases h' : e.activeEditgroup = some other <;> simp [h, h', apart.1.symm]
  editgroups := by
    simp only [accepted, closed, changeWhere, List.map_map, written]
    refine List.map_congr_left fun g _ => ?_
    by_cases h : g.id = group
    · simp [h, apart.1]
    · by_cases h' : g.id = other <;> simp [h, h', apart.1.symm]
  revisions := rfl
  identities := by
    have same := congrArg Store.identities (written_comm (s := s) (apart.nodup keyed))
    exact same
  edits := rfl

/-- Nothing but times depends on when an editgroup is accepted. -/
theorem accepted_agrees (s : Store) (group : EditgroupId) (t t' u u' : Instant) :
    (s.accepted group t t').AgreesWith (s.accepted group u u') where
  editors := rfl
  editgroups := by
    simp only [accepted, closed, changeWhere, List.map_map, written]
    refine List.map_congr_left fun g _ => ?_
    by_cases h : g.id = group <;> simp [h]
  revisions := rfl
  identities := rfl
  edits := rfl

theorem Logged.changelog_accepted_accepted (h : s.Logged) (group other : EditgroupId)
    (t t' u u' : Instant) :
    ((s.accepted group t t').accepted other u u').changelog = s.changelog ++
      [⟨s.changelog.length + 1, group, t'⟩, ⟨s.changelog.length + 2, other, u'⟩] := by
  have first := h.nextSeq_eq
  have second : (s.accepted group t t').nextSeq = s.changelog.length + 2 := by
    have : (s.accepted group t t').nextSeq =
        max ((s.changelog.map (·.seq)).foldl max 0) s.nextSeq + 1 := by
      simp [nextSeq, accepted, List.foldl_append]
    have highest : (s.changelog.map (·.seq)).foldl max 0 + 1 = s.changelog.length + 1 := first
    omega
  have changelog : ((s.accepted group t t').accepted other u u').changelog =
      s.changelog ++ [⟨s.nextSeq, group, t'⟩] ++ [⟨(s.accepted group t t').nextSeq, other, u'⟩] :=
    rfl
  rw [changelog, first, second, List.append_assoc]
  rfl

end Groups

section After
variable {c : Catalog}

/-- The outcome of an acceptance, and the tables behind it. -/
theorem Arises.outcome_accept (arises : c.Arises) (src : Source) (group : EditgroupId) :
    c.acceptRefusal? group = none ∧ c.TakesAll (inApplicationOrder (c.editsOf group)) ∧
        (Operation.accept group).outcome src c = .ok () ∧
        (∃ t t', ((Operation.accept group).after src c).toStore = c.accepted group t t') ∨
      ∃ err, c.acceptRefusal? group = some err ∧
        (Operation.accept group).outcome src c = .error err ∧
        ((Operation.accept group).after src c).toStore = c.toStore := by
  obtain ⟨d, performed⟩ := arises.accept_eq src group
  rcases arises.acceptRefusal?_cases group with ⟨passed, -, takes⟩ | ⟨err, failed, -⟩
  · rw [passed] at performed
    have ran := Write.run_eq_ok.2 performed
    refine .inl ⟨passed, takes, ?_, _, _, congrArg (fun p => p.2.toStore) ran⟩
    exact congrArg (fun p => Except.map (fun _ => ()) p.1) ran
  · rw [failed] at performed
    have answer : (Operation.accept group).answer src c = .error err := by
      simp only [Operation.answer, Operation.perform, Write.run, performed]
    exact .inr ⟨err, failed, by rw [Operation.outcome, answer]; rfl, Write.run_error answer⟩

theorem Arises.outcome_eq (arises : c.Arises) (src : Source) (group : EditgroupId) :
    (Operation.accept group).outcome src c = match c.acceptRefusal? group with
      | none => .ok ()
      | some err => .error err := by
  rcases arises.outcome_accept src group with ⟨passed, -, outcome, -⟩ | ⟨err, failed, outcome, -⟩
  · rw [outcome, passed]
  · rw [outcome, failed]

variable {group other : EditgroupId}

theorem Apart.acceptRefusal?_after (apart : c.Apart group other) (arises : c.Arises)
    (src : Source) :
    ((Operation.accept group).after src c).acceptRefusal? other = c.acceptRefusal? other := by
  rcases arises.outcome_accept src group with ⟨-, takes, -, t, t', after⟩ | ⟨err, -, -, after⟩
  · rw [after, apart.acceptRefusal?_accepted arises.keyed takes]
  · rw [after]

/-- Behind another acceptance, an editgroup fares as it would have before it. -/
theorem Apart.outcome_after (apart : c.Apart group other) (arises : c.Arises) (src : Source) :
    (Operation.accept other).outcome src ((Operation.accept group).after src c) =
      (Operation.accept other).outcome src c := by
  rw [(arises.after src _).outcome_eq, arises.outcome_eq, apart.acceptRefusal?_after arises src]

/-- The tables behind two acceptances, of which each is refused or not as the tables were. -/
theorem Apart.play_eq (apart : c.Apart group other) (arises : c.Arises) (src : Source) :
    ∃ t t' u u', (c.play src [⟨.accept group⟩, ⟨.accept other⟩]).toStore =
      match c.acceptRefusal? group, c.acceptRefusal? other with
      | none, none => (c.accepted group t t').accepted other u u'
      | none, some _ => c.accepted group t t'
      | some _, none => c.accepted other u u'
      | some _, some _ => c.toStore := by
  have there := arises.after src (.accept group)
  have same := apart.acceptRefusal?_after arises src
  have played : c.play src [⟨.accept group⟩, ⟨.accept other⟩] =
      (Operation.accept other).after src ((Operation.accept group).after src c) := rfl
  rw [played, ← same]
  rcases arises.outcome_accept src group with
      ⟨first, -, -, t, t', after⟩ | ⟨err, first, -, after⟩ <;>
    rcases there.outcome_accept src other with
      ⟨second, -, -, u, u', after'⟩ | ⟨err', second, -, after'⟩
  · exact ⟨t, t', u, u', by rw [first, second, after', after]⟩
  · exact ⟨t, t', t, t', by rw [first, second, after', after]⟩
  · exact ⟨u, u', u, u', by rw [first, second, after', after]⟩
  · exact ⟨src.time 0, src.time 0, src.time 0, src.time 0, by rw [first, second, after', after]⟩

end After

end Store

namespace Catalog

/-- Editgroups whose edits have no identity in common can be accepted in either order. Each fares
    as it does when it is the first one, and the tables behind them are the same, except for times;
    if both are accepted, the numbers of their entries are exchanged. -/
theorem Reachable.accept_comm {src : Source} {c : Catalog} (h : Reachable src c)
    {group other : EditgroupId} (distinct : group ≠ other)
    (disjoint : (c.footprint group).Disjoint (c.footprint other)) :
    (Operation.accept other).outcome src ((Operation.accept group).after src c) =
        (Operation.accept other).outcome src c ∧
      (Operation.accept group).outcome src ((Operation.accept other).after src c) =
        (Operation.accept group).outcome src c ∧
      (c.play src [⟨.accept group⟩, ⟨.accept other⟩]).AgreesWith
        (c.play src [⟨.accept other⟩, ⟨.accept group⟩]).toStore ∧
      ((Operation.accept group).outcome src c = .ok () →
        (Operation.accept other).outcome src c = .ok () →
        ∃ t u v w,
          (c.play src [⟨.accept group⟩, ⟨.accept other⟩]).changelog = c.changelog ++
            [⟨c.changelog.length + 1, group, t⟩, ⟨c.changelog.length + 2, other, u⟩] ∧
          (c.play src [⟨.accept other⟩, ⟨.accept group⟩]).changelog = c.changelog ++
            [⟨c.changelog.length + 1, other, v⟩, ⟨c.changelog.length + 2, group, w⟩]) := by
  have arises := h.arises
  have apart : c.Apart group other := ⟨distinct, disjoint⟩
  refine ⟨apart.outcome_after arises src, apart.symm.outcome_after arises src, ?_, ?_⟩
  · obtain ⟨t, t', u, u', after⟩ := apart.play_eq arises src
    obtain ⟨v, v', w, w', after'⟩ := apart.symm.play_eq arises src
    rw [after, after']
    cases c.acceptRefusal? group <;> cases c.acceptRefusal? other
    · exact apart.accepted_comm arises.keyed ..
    · exact c.accepted_agrees group ..
    · exact c.accepted_agrees other ..
    · exact .refl c.toStore
  · intro ok ok'
    rw [arises.outcome_eq] at ok ok'
    obtain ⟨t, t', u, u', after⟩ := apart.play_eq arises src
    obtain ⟨v, v', w, w', after'⟩ := apart.symm.play_eq arises src
    rw [after, after']
    cases refusal : c.acceptRefusal? group with
    | some err => simp [refusal] at ok
    | none =>
      cases refusal' : c.acceptRefusal? other with
      | some err => simp [refusal'] at ok'
      | none =>
        exact ⟨t', u', v', w', arises.logged.changelog_accepted_accepted ..,
          arises.logged.changelog_accepted_accepted ..⟩

/-- Two open editgroups: one merges a work into another one, the other one deletes a third. -/
def unrelated : Catalog := Catalog.empty.play .counting [
  ⟨.createEditor "someone"⟩, ⟨.autoaccept (.nth 0) (.work {})⟩, ⟨.autoaccept (.nth 0) (.work {})⟩,
  ⟨.autoaccept (.nth 0) (.work {})⟩, ⟨.createEditgroup (.nth 0) none .empty⟩,
  ⟨.redirectEntity (.nth 13) (.nth 3) (.nth 7)⟩, ⟨.createEditgroup (.nth 0) none .empty⟩,
  ⟨.deleteEntity (.nth 15) (.nth 11)⟩]

theorem unrelated_accept_comm :
    unrelated.footprint (.nth 13) = [.nth 3, .nth 7] ∧ unrelated.footprint (.nth 15) = [.nth 11] ∧
      (Operation.accept (.nth 15)).outcome .counting
        ((Operation.accept (.nth 13)).after .counting unrelated) = .ok () ∧
      (unrelated.play .counting [⟨.accept (.nth 13)⟩, ⟨.accept (.nth 15)⟩]).AgreesWith
        (unrelated.play .counting [⟨.accept (.nth 15)⟩, ⟨.accept (.nth 13)⟩]).toStore ∧
      ∃ t u v w,
        (unrelated.play .counting [⟨.accept (.nth 13)⟩, ⟨.accept (.nth 15)⟩]).changelog =
          unrelated.changelog ++ [⟨4, .nth 13, t⟩, ⟨5, .nth 15, u⟩] ∧
        (unrelated.play .counting [⟨.accept (.nth 15)⟩, ⟨.accept (.nth 13)⟩]).changelog =
          unrelated.changelog ++ [⟨4, .nth 15, v⟩, ⟨5, .nth 13, w⟩] := by
  have merging : unrelated.footprint (.nth 13) = [.nth 3, .nth 7] := by decide +kernel
  have deleting : unrelated.footprint (.nth 15) = [.nth 11] := by decide +kernel
  have merges : (Operation.accept (.nth 13)).outcome .counting unrelated = .ok () := by
    decide +kernel
  have deletes : (Operation.accept (.nth 15)).outcome .counting unrelated = .ok () := by
    decide +kernel
  have disjoint : (unrelated.footprint (.nth 13)).Disjoint (unrelated.footprint (.nth 15)) := by
    rw [merging, deleting, List.disjoint_iff_ne]
    decide +kernel
  obtain ⟨outcome, -, agrees, entries⟩ := Reachable.accept_comm
    (show Reachable .counting unrelated from leads_play ..) (by decide +kernel) disjoint
  have length : unrelated.changelog.length = 3 := by decide +kernel
  rw [length] at entries
  exact ⟨merging, deleting, outcome.trans deletes, agrees, entries merges deletes⟩

end Catalog

end Biblio
