import Biblio.Proofs.Permanence
import Biblio.Proofs.Redirects
import Biblio.Proofs.Replay

/-! How identities begin.

    An identity is made together with an edit of it that has no base. There is never a second edit
    without a base, and an edit with a base needs an identity that is live; so the first edit that
    is accepted of an identity is the one it was made with. Once that cannot be accepted any more,
    nothing can be of that identity. -/

namespace Biblio

namespace Store

section Bases
variable {s t : Store}

/-- An edit that a change brings is of an identity that is not there yet, or it has a base. -/
theorem Change.edit_cases {k : Deed} (arises : s.Arises) (step : Change s k t) {e : Edit}
    (he : e ∈ t.edits) :
    e ∈ s.edits ∨ (∀ y ∈ s.identities, y.id ≠ e.ident) ∧ e.base = (none, none) ∨
      (∃ y ∈ s.identities, y.id = e.ident ∧ y.isLive = true) ∧ e.base ≠ (none, none) := by
  cases step with
  | stageNew x f may =>
    rcases List.mem_append.1 he with old | new
    · exact .inl old
    · obtain rfl := List.mem_singleton.1 new
      exact .inr (.inl ⟨may.ident ▸ may.unknown, may.base⟩)
  | stage x f may =>
    rcases List.mem_append.1 he with old | new
    · exact .inl old
    · obtain rfl := List.mem_singleton.1 new
      have based := may.base_ne (arises.isShaped x may.known)
      exact .inr (.inr ⟨⟨x, may.known, may.ident, may.live⟩, based⟩)
  | remove f _ _ => exact .inl (List.mem_of_mem_filter he)
  | _ => exact .inl he

theorem Becomes.exists_identity (h : s.Becomes t) (arises : s.Arises) {id : EntityId}
    (known : ∃ y ∈ s.identities, y.id = id) : ∃ y ∈ t.identities, y.id = id := by
  obtain ⟨y, hy, rfl⟩ := known
  obtain ⟨z, hz, may⟩ := (h.retains arises).identities y hy
  exact ⟨z, hz, may.id⟩

/-- An identity that is there gets no further edits without a base. -/
theorem Becomes.mem_edits_of_no_base (h : s.Becomes t) (arises : s.Arises) {e : Edit}
    (known : ∃ y ∈ s.identities, y.id = e.ident) (he : e ∈ t.edits) (base : e.base = (none, none)) :
    e ∈ s.edits := by
  induction h with
  | refl => exact he
  | tail before step ih =>
    obtain ⟨k, step⟩ := step
    rcases step.edit_cases (arises.becomes before) he with old | ⟨unknown, -⟩ | ⟨-, based⟩
    · exact ih old
    · obtain ⟨y, hy, hid⟩ := Becomes.exists_identity before arises known
      exact absurd hid (unknown y hy)
    · exact absurd base based

theorem Arises.knows_ident (arises : s.Arises) {e : Edit} (he : e ∈ s.edits) :
    ∃ y ∈ s.identities, y.id = e.ident := by
  obtain ⟨y, hy, hid, -⟩ := (arises.grounded.edits e he).ident
  exact ⟨y, hy, hid⟩

/-- No identity has two edits without a base. -/
theorem Arises.no_base_unique (arises : s.Arises) {e f : Edit} (he : e ∈ s.edits)
    (hf : f ∈ s.edits) (ident : f.ident = e.ident) (base : e.base = (none, none))
    (base' : f.base = (none, none)) : f = e := by
  induction arises using Arises.induction with
  | empty => cases he
  | @change s t k arises step ih =>
    cases step with
    | stageNew x new may =>
      have other : ∀ g ∈ s.edits, g.ident ≠ new.ident := fun g hg same => by
        obtain ⟨y, hy, hid⟩ := arises.knows_ident hg
        exact may.unknown y hy (hid.trans (same.trans may.ident.symm))
      rcases List.mem_append.1 he, List.mem_append.1 hf with ⟨olde | newe, oldf | newf⟩
      · exact ih olde oldf
      · exact absurd (List.mem_singleton.1 newf ▸ ident).symm (other e olde)
      · exact absurd (List.mem_singleton.1 newe ▸ ident) (other f oldf)
      · exact (List.mem_singleton.1 newf).trans (List.mem_singleton.1 newe).symm
    | stage x new may =>
      have old : ∀ g ∈ s.edits ++ [new], g.base = (none, none) → g ∈ s.edits := fun g hg base => by
        rcases List.mem_append.1 hg with old | hnew
        · exact old
        · obtain rfl := List.mem_singleton.1 hnew
          exact absurd base (may.base_ne (arises.isShaped x may.known))
      exact ih (old e he base) (old f hf base')
    | remove g _ _ => exact ih (List.mem_of_mem_filter he) (List.mem_of_mem_filter hf)
    | _ => exact ih he hf

/-- No edit of an identity that is not live has a base. -/
theorem Arises.no_base (arises : s.Arises) :
    ∀ x ∈ s.identities, x.isLive = false → ∀ e ∈ s.edits, e.ident = x.id →
      e.base = (none, none) := by
  induction arises using Arises.induction with
  | empty => exact fun x hx => nomatch hx
  | @change s t k arises step ih =>
    cases step with
    | stageNew x new may =>
      intro y hy wip e he same
      rcases List.mem_append.1 he with olde | newe
      · rcases List.mem_append.1 hy with oldy | newy
        · exact ih y oldy wip e olde same
        · obtain ⟨z, hz, hid⟩ := arises.knows_ident olde
          obtain rfl := List.mem_singleton.1 newy
          exact absurd (hid.trans same) (may.unknown z hz)
      · exact List.mem_singleton.1 newe ▸ may.base
    | stage x new may =>
      intro y hy wip e he same
      rcases List.mem_append.1 he with olde | newe
      · exact ih y hy wip e olde same
      · obtain rfl := List.mem_singleton.1 newe
        obtain rfl := arises.keyed.identity_unique may.known hy (may.ident.trans same)
        exact absurd may.live (by simp [wip])
    | remove g _ _ => exact fun y hy wip e he => ih y hy wip e (List.mem_of_mem_filter he)
    | accept group closedAt acceptedAt writable takes =>
      intro y hy wip
      obtain ⟨x, hx, rfl⟩ := List.mem_map.1 hy
      -- what an edit was written to is live
      rcases Identity.under_cases (inApplicationOrder (s.editsOf group)) x with
        ⟨same, -⟩ | ⟨e, -, -, changed⟩
      · rw [same] at wip ⊢
        exact ih x hx wip
      · simp [changed] at wip
    | _ => exact ih

/-- Something was accepted of an identity that is not wip, and first an edit without a base. -/
theorem Arises.first_of_log (arises : s.Arises) {x : Identity} (hx : x ∈ s.identities)
    (accepted : x.state ≠ .wip) :
    ∃ e entry, (s.log x.id).head? = some (e, entry) ∧ e.base = (none, none) ∧ e ∈ s.edits ∧
      e.ident = x.id ∧ entry ∈ s.changelog ∧ e.editgroup = entry.editgroup := by
  have made := arises.isMadeBy x hx
  cases log : s.log x.id with
  | nil => exact absurd (made.wip.2 (by rw [log]; rfl)) accepted
  | cons p ps =>
    obtain ⟨e, entry⟩ := p
    obtain ⟨hentry, he, hgroup, hid⟩ := arises.logged.mem_log.1 (log ▸ List.mem_cons_self)
    exact ⟨e, entry, rfl, (made.first e (by rw [log]; rfl)).1, he, hid, hentry, hgroup⟩

end Bases

/-! ### What is allocated -/

end Store

/-- The deed leaves the edits that there are, and stages an edit only of a new identity, in an
    editgroup of this kind. -/
def Deed.Allocates (here : EditgroupId → Prop) : Deed → Prop
  | stageNew _ e => here e.editgroup
  | stage _ _ | remove _ => False
  | editor _ | editgroup _ | activate _ | revision _ | accept _ | abandon _ => True

/-- An operation makes no identities, or it does nothing with edits but to make identities, in the
    editgroup that it is about or makes. -/
theorem Operation.May.allocates {α : Type} (op : Operation α) (s : Store) :
    (∀ k, op.May s k → ∀ x e, k ≠ .stageNew x e) ∨
      ∀ k, op.May s k → k.Allocates (op.AllocatesIn s) := by
  cases op with
  | stageEdit g target =>
    cases target with
    | new kind => exact .inr (by grind [May, AllocatesIn, group?, Deed.Allocates])
    | existing id => exact .inl (by grind [May])
  | createEntity g body => exact .inr (by grind [May, AllocatesIn, group?, Deed.Allocates])
  | autoaccept editor body => exact .inr (by grind [May, AllocatesIn, group?, Deed.Allocates])
  | _ => exact .inl (by grind [May])

namespace Store

/-- Every identity was there before, or it has an edit; and every edit of an identity that was not
    there before has no base and is in an editgroup of this kind. -/
structure Introduces (here : EditgroupId → Prop) (s t : Store) : Prop where
  identities : ∀ x ∈ t.identities, (∃ y ∈ s.identities, y.id = x.id) ∨ ∃ e ∈ t.edits, e.ident = x.id
  edits : ∀ e ∈ t.edits, (∃ y ∈ s.identities, y.id = e.ident) ∨
    e.base = (none, none) ∧ here e.editgroup

section Introduces
variable {here : EditgroupId → Prop} {s t u : Store} {k : Deed}

/-- Where there are no other identities there is nothing to introduce. -/
theorem Arises.introduces_of_ids (arises : t.Arises)
    (same : t.identities.map (·.id) = s.identities.map (·.id)) : s.Introduces here t := by
  have known : ∀ y ∈ t.identities, ∃ x ∈ s.identities, x.id = y.id := fun y hy =>
    List.mem_map.1 (same ▸ List.mem_map_of_mem hy)
  refine ⟨fun y hy => .inl (known y hy), fun e he => .inl ?_⟩
  obtain ⟨y, hy, hid⟩ := arises.knows_ident he
  obtain ⟨x, hx, hid'⟩ := known y hy
  exact ⟨x, hx, hid'.trans hid⟩

/-- Identities are made by staging an edit and in no other way. -/
theorem Change.identities_ids (step : Change s k t) (other : ∀ x e, k ≠ .stageNew x e) :
    t.identities.map (·.id) = s.identities.map (·.id) := by
  cases step with
  | stageNew x e _ => exact absurd rfl (other x e)
  | accept group _ _ _ _ => exact written_ids s _
  | _ => rfl

theorem Introduces.change (h : s.Introduces here t) (step : Change t k u)
    (kind : k.Allocates here) : s.Introduces here u := by
  cases step with
  | stageNew x e may =>
    constructor
    · refine List.forall_mem_append.2 ⟨fun y hy => ?_, List.forall_mem_singleton.2 (.inr ?_)⟩
      · rcases h.identities y hy with old | ⟨f, hf, hid⟩
        · exact .inl old
        · exact .inr ⟨f, List.mem_append_left _ hf, hid⟩
      · exact ⟨e, List.mem_append_right _ (List.mem_singleton_self e), may.ident.symm⟩
    · refine List.forall_mem_append.2 ⟨h.edits, List.forall_mem_singleton.2 (.inr ?_)⟩
      exact ⟨may.base, kind⟩
  | stage _ _ _ | remove _ _ _ => exact kind.elim
  | accept group _ _ _ _ =>
    refine ⟨fun y hy => ?_, h.edits⟩
    obtain ⟨x, hx, rfl⟩ := List.mem_map.1 hy
    rw [Identity.under_id]
    exact h.identities x hx
  | _ => exact ⟨h.identities, h.edits⟩

/-- An identity that there was not before an operation has an edit behind it; and an edit of such an
    identity has no base and is in the editgroup of the operation. -/
theorem Arises.after_introduces {α : Type} {c : Catalog} (arises : c.Arises) (src : Source)
    (op : Operation α) :
    c.Introduces (op.AllocatesIn c.toStore) (op.after src c).toStore := by
  have leads := arises.after_leadsBy src op
  rcases Operation.May.allocates op c.toStore with none | only
  · refine (arises.after src op).introduces_of_ids ?_
    exact leads.invariant arises (fun _ may step same =>
      (step.identities_ids (none _ may)).trans same) rfl
  · exact leads.invariant arises (fun _ may step introduces =>
      introduces.change step (only _ may)) (arises.introduces_of_ids rfl)

end Introduces

end Store

namespace Catalog

/-- How an identity was allocated in a run that leads to a catalog: the operation that it came from,
    and an edit of it behind that. -/
structure Allocation (src : Source) (d : Catalog) (id : EntityId) where
  before : Catalog
  {α : Type}
  operation : Operation α
  edit : Edit
  reachable : Reachable src before
  unknown : ∀ x ∈ before.identities, x.id ≠ id
  staged : edit ∈ (operation.after src before).edits
  ident : edit.ident = id
  leads : Leads src (operation.after src before) d

section Allocation
variable {src : Source} {d : Catalog} {t : Store} {id : EntityId}

/-- An identity that is there was allocated. -/
theorem Reachable.allocation (h : Reachable src d) (known : ∃ x ∈ d.identities, x.id = id) :
    Nonempty (Allocation src d id) := by
  induction h with
  | stay =>
    obtain ⟨x, hx, -⟩ := known
    cases hx
  | @go c α op before ih =>
    by_cases old : ∃ x ∈ c.identities, x.id = id
    · obtain ⟨a⟩ := ih old
      exact ⟨{ a with leads := a.leads.go op }⟩
    · obtain ⟨x, hx, rfl⟩ := known
      have arises := Reachable.arises before
      rcases (arises.after_introduces src op).identities x hx with known | ⟨e, he, hid⟩
      · exact absurd known old
      · exact ⟨⟨c, op, e, before, fun y hy same => old ⟨y, hy, same⟩, he, hid, .stay⟩⟩

namespace Allocation
variable (a : Allocation src d id)
include a

theorem arises_after : (a.operation.after src a.before).Arises :=
  a.reachable.arises.after src a.operation

theorem becomes : (a.operation.after src a.before).Becomes d.toStore :=
  a.leads.becomes a.arises_after

theorem arises : d.Arises := a.arises_after.becomes a.becomes

/-- The edit has no base, and it is in the editgroup that the operation was about or made. -/
theorem introduced : a.edit.base = (none, none) ∧
    a.operation.AllocatesIn a.before.toStore a.edit.editgroup := by
  rcases (a.reachable.arises.after_introduces src a.operation).edits a.edit a.staged with
    ⟨y, hy, hid⟩ | introduced
  · exact absurd (hid.trans a.ident) (a.unknown y hy)
  · exact introduced

/-- There is no other edit of the identity without a base, neither now nor later on. -/
theorem eq_edit (later : d.Becomes t) {e : Edit} (he : e ∈ t.edits) (ident : e.ident = id)
    (base : e.base = (none, none)) : e = a.edit := by
  obtain ⟨y, hy, hid⟩ := a.arises_after.knows_ident a.staged
  have known := hid.trans (a.ident.trans ident.symm)
  have early := Store.Becomes.mem_edits_of_no_base (a.becomes.trans later) a.arises_after
    ⟨y, hy, known⟩ he base
  exact a.arises_after.no_base_unique a.staged early (ident.trans a.ident.symm) a.introduced.1 base

/-- An identity that is not wip was first changed by the edit that it was allocated with. -/
theorem first_of_log (later : d.Becomes t) {x : Identity} (hx : x ∈ t.identities) (hid : x.id = id)
    (accepted : x.state ≠ .wip) :
    ∃ entry ∈ t.changelog, (t.log x.id).head? = some (a.edit, entry) ∧ a.edit ∈ t.edits ∧
      a.edit.editgroup = entry.editgroup := by
  obtain ⟨e, entry, first, base, he, ident, hentry, hgroup⟩ :=
    (a.arises.becomes later).first_of_log hx accepted
  obtain rfl := a.eq_edit later he (ident.trans hid) base
  exact ⟨entry, hentry, first, he, hgroup⟩

/-- While the identity is wip there is no other edit of it, and nothing redirects to it. -/
theorem alone_of_wip (later : d.Becomes t) {x : Identity} (hx : x ∈ t.identities) (hid : x.id = id)
    (wip : x.state = .wip) :
    (∀ e ∈ t.edits, e.ident = id → e = a.edit) ∧ ∀ y ∈ t.identities, y.redirect ≠ some id := by
  have arises : t.Arises := a.arises.becomes later
  have dead := Identity.state_eq_wip.1 wip
  refine ⟨fun e he ident => ?_, fun y hy redirects => ?_⟩
  · exact a.eq_edit later he ident (arises.no_base x hx dead e he (ident.trans hid.symm))
  · obtain ⟨z, hz, hid', live, -⟩ := arises.straight.lands y hy id redirects
    obtain rfl := arises.keyed.identity_unique hz hx (hid'.trans hid.symm)
    simp [dead] at live

/-- The edit that the identity was allocated with cannot be accepted any more: it was removed, or
    its editgroup was abandoned. -/
def IsLost : Prop :=
  a.edit ∉ d.edits ∨ ∃ g ∈ d.editgroups, g.id = a.edit.editgroup ∧ g.status = .abandoned

/-- An identity whose first edit was lost is never accepted. -/
theorem wip_of_isLost (lost : a.IsLost) (later : d.Becomes t) {x : Identity}
    (hx : x ∈ t.identities) (hid : x.id = id) : x.state = .wip := by
  by_contra accepted
  obtain ⟨entry, hentry, -, he, hgroup⟩ := a.first_of_log later hx hid accepted
  rcases lost with removed | ⟨g, hg, same, abandoned⟩
  · have known := a.becomes.exists_identity a.arises_after (a.arises_after.knows_ident a.staged)
    exact removed (later.mem_edits_of_no_base a.arises known he a.introduced.1)
  · obtain ⟨hg, -⟩ := (later.retains a.arises).closed g hg (by simp [abandoned])
    obtain ⟨g', hg', hid', accepted, -⟩ := (a.arises.becomes later).logged.known entry hentry
    obtain rfl := (a.arises.becomes later).keyed.editgroup_unique hg' hg
      (hid'.trans (hgroup.symm.trans same.symm))
    rw [abandoned] at accepted
    cases accepted

end Allocation

/-- An identity becomes live only through the edit that it was allocated with, which is an update
    without a base in the editgroup of the operation that allocated it. While it is wip there is no
    other edit of it, and nothing redirects to it; once it is not, that edit is the first one that
    was accepted of it. So if the edit was removed or its editgroup abandoned, the identity stays
    wip whatever operations follow; nothing comes to redirect to it, and no edit of it is staged. -/
theorem Reachable.live_as_allocated (h : Reachable src d) {x : Identity} (hx : x ∈ d.identities) :
    Nonempty (Allocation src d x.id) ∧ ∀ a : Allocation src d x.id,
      (∃ rev, a.edit.action = .update rev) ∧ a.edit.base = (none, none) ∧
      a.operation.AllocatesIn a.before.toStore a.edit.editgroup ∧
      (x.state = .wip → (∀ e ∈ d.edits, e.ident = x.id → e = a.edit) ∧
        ∀ y ∈ d.identities, y.redirect ≠ some x.id) ∧
      (x.state ≠ .wip → a.edit ∈ d.edits ∧
        ∃ entry ∈ d.changelog, (d.log x.id).head? = some (a.edit, entry)) ∧
      (a.IsLost → ∀ src' d', Leads src' d d' →
        (∃ y ∈ d'.identities, y.id = x.id ∧ y.state = .wip) ∧
        (∀ y ∈ d'.identities, y.redirect ≠ some x.id) ∧
        ∀ e ∈ d'.edits, e.ident = x.id → e ∈ d.edits) := by
  refine ⟨h.allocation ⟨x, hx, rfl⟩, fun a => ?_⟩
  have arises := h.arises
  obtain ⟨base, here⟩ := a.introduced
  refine ⟨a.arises_after.update_of_no_base a.edit a.staged base, base, here,
    a.alone_of_wip .refl hx rfl,
    fun accepted => ?_, fun lost src' d' run => ?_⟩
  · obtain ⟨entry, hentry, first, he, -⟩ := a.first_of_log .refl hx rfl accepted
    exact ⟨he, entry, hentry, first⟩
  · have later := run.becomes arises
    obtain ⟨y, hy, hid⟩ := later.exists_identity arises ⟨x, hx, rfl⟩
    have state := a.wip_of_isLost lost later hy hid
    obtain ⟨only, untargeted⟩ := a.alone_of_wip later hy hid state
    refine ⟨⟨y, hy, hid, state⟩, untargeted, fun e he ident => ?_⟩
    have known : ∃ z ∈ d.identities, z.id = e.ident := ⟨x, hx, ident.symm⟩
    exact later.mem_edits_of_no_base arises known he (only e he ident ▸ base)

/-- The edit of a new work is removed, and that of another one is in an editgroup that is abandoned;
    a third work is accepted. -/
def discarded : Catalog := Catalog.empty.play .counting [
  ⟨.createEditor "someone"⟩, ⟨.createEditgroup (.nth 0) none .empty⟩,
  ⟨.createEntity (.nth 1) (.work {})⟩, ⟨.removeEdit (.nth 4)⟩,
  ⟨.createEditgroup (.nth 0) none .empty⟩, ⟨.createEntity (.nth 5) (.work {})⟩,
  ⟨.abandon (.nth 5)⟩, ⟨.autoaccept (.nth 0) (.work {})⟩]

/-- The first two are accepted by nothing that follows; the third one was by its first edit. -/
theorem discarded_live_as_allocated :
    discarded.identities.map (·.state) = [.wip, .wip, .active] ∧
      ∀ x ∈ discarded.identities,
        (x.state = .wip → ∀ src d, Leads src discarded d →
          ∃ y ∈ d.identities, y.id = x.id ∧ y.state = .wip) ∧
        (x.state ≠ .wip → ∃ e ∈ discarded.edits, e.base = (none, none) ∧
          ∃ entry ∈ discarded.changelog, (discarded.log x.id).head? = some (e, entry)) := by
  refine ⟨by decide +kernel, fun x hx => ?_⟩
  obtain ⟨⟨a⟩, settled⟩ := Reachable.live_as_allocated
    (show Reachable .counting discarded from leads_play ..) hx
  obtain ⟨-, base, -, -, accepted, stays⟩ := settled a
  refine ⟨fun wip src d run => ?_, fun state => ?_⟩
  · have lost : ∀ x ∈ discarded.identities, x.state = .wip → ∀ e ∈ discarded.edits,
        e.ident = x.id →
          ∃ g ∈ discarded.editgroups, g.id = e.editgroup ∧ g.status = .abandoned := by
      decide +kernel
    have : a.IsLost := by
      by_cases he : a.edit ∈ discarded.edits
      · exact .inr (lost x hx wip a.edit he a.ident)
      · exact .inl he
    exact (stays this src d run).1
  · obtain ⟨he, entry⟩ := accepted state
    exact ⟨a.edit, he, base, entry⟩

end Allocation

end Catalog

end Biblio
