import Biblio.Proofs.Readers
import Biblio.Proofs.RoundTrip

/-! What readers are shown of an identity, and where following it leads.

    An identity that something was accepted of is shown by its state: an active one with its own
    revision, a deleted one with nothing, a redirecting one with what its target is shown with.
    Following identities is another way to their revisions, and it leads to the same ones. The only
    thing that can come between is the depth of the body that is to be shown: the text of every body
    is stored, but one that nests more than 127 deep is not read. -/

namespace Biblio

/-- A stored revision is that of this body, which breaks no rule of its own. -/
def RevisionRow.IsOf (r : RevisionRow) (b : EntityBody) : Prop :=
  b.faults = [] ∧ r = .ofBody b r.id r.createdAt

namespace Store

/-- The stored revision is that of a body that nests deeper than a text that is read may. -/
def IsDeep (s : Store) (rev : RevisionId) : Prop :=
  ∃ r ∈ s.revisions, r.id = rev ∧ ∃ b, r.IsOf b ∧ Json.maxDepth < b.nesting

/-- The current revision of an identity is that of such a body. -/
def HoldsDeep (s : Store) (x : Identity) : Prop := ∃ rev, x.revision = some rev ∧ s.IsDeep rev

/-- Readers of this entity would have to be shown such a body: its own, or that of the identity that
    it redirects to. -/
def ShowsDeep (s : Store) (id : EntityId) : Prop :=
  ∃ x ∈ s.identities, x.id = id ∧
    (s.HoldsDeep x ∨ ∃ y ∈ s.identities, x.redirect = some y.id ∧ s.HoldsDeep y)

/-- Readers are to see nothing of this entity: there is none, or nothing of it was accepted. -/
def Hides (s : Store) (id : EntityId) : Prop := ∀ x ∈ s.identities, x.id = id → x.state = .wip

/-- What readers are to see of an identity in each state. -/
def Shows (s : Store) (x : Identity) (v : EntityView) : EntityState → Prop
  | .wip => False
  | .active => ∃ rev r, x.revision = some rev ∧ s.getRevision rev = .ok r ∧
      r.kind = x.kind ∧ r.body.kind = x.kind ∧
      v = ⟨x.id, x.kind, .active, some rev, none, some r.body⟩
  | .deleted => v = ⟨x.id, x.kind, .deleted, none, none, none⟩
  | .redirect => ∃ target w, x.redirect = some target ∧ s.getEntity target = .ok w ∧
      (w.revision = none ↔ w.state = .deleted) ∧ (w.body = none ↔ w.state = .deleted) ∧
      v = ⟨x.id, x.kind, .redirect, w.revision, some target, w.body⟩

variable {s : Store}

/-! ### Reading revisions -/

/-- Every stored revision is that of a body. -/
theorem Arises.isOf (h : s.Arises) : ∀ r ∈ s.revisions, ∃ b, r.IsOf b := by
  induction h using Arises.induction with
  | empty => exact fun r hr => nomatch hr
  | change arises step ih =>
    cases step with
    | revision body id time valid new =>
      refine List.forall_mem_append.2 ⟨ih, List.forall_mem_singleton.2 ⟨body, ?_, rfl⟩⟩
      exact (List.append_eq_nil_iff.1 valid).1
    | _ => exact ih

/-- A revision is read with the body that it is of, unless that nests too deeply. -/
theorem Keyed.getRevision_eq (keyed : s.Keyed) {r : RevisionRow} (hr : r ∈ s.revisions)
    {b : EntityBody} (h : r.IsOf b) :
    s.getRevision r.id = if b.nesting ≤ Json.maxDepth
      then .ok ⟨r.id, b.kind, b.reread, r.fingerprint, r.createdAt⟩
      else .error (.storage .undecodable) := by
  have row : s.revisionRow? r.id = some r := (find?_eq_some_iff keyed.revisions).2 ⟨hr, rfl⟩
  have text : r.bodyText = b.canonicalText := by rw [h.2]; rfl
  have kind : r.kind = b.kind := by rw [h.2]; rfl
  rw [getRevision, row, found, Except.ok_bind, decodeStored, text, kind]
  split_ifs with shallow
  · rw [EntityBody.ofText_canonicalText shallow]
    rfl
  · obtain ⟨f, failed⟩ := EntityBody.ofText_canonicalText_of_deep (not_le.1 shallow)
    rw [failed]
    rfl

theorem Keyed.getRevision_of_isDeep (keyed : s.Keyed) {rev : RevisionId} (deep : s.IsDeep rev) :
    s.getRevision rev = .error (.storage .undecodable) := by
  obtain ⟨r, hr, rfl, b, hb, deep⟩ := deep
  rw [keyed.getRevision_eq hr hb, if_neg (Nat.not_le.2 deep)]

/-- Only a body that nests too deeply keeps a revision from being read. -/
theorem Arises.getRevision_cases (h : s.Arises) {rev : RevisionId} {kind : EntityKind}
    (there : s.HasRevision rev kind) :
    (∃ r, s.getRevision rev = .ok r ∧ r.kind = kind ∧ r.body.kind = kind) ∨ s.IsDeep rev := by
  obtain ⟨r, hr, rfl, rfl⟩ := there
  obtain ⟨b, hb⟩ := h.isOf r hr
  have kind : b.kind = r.kind := by rw [hb.2]; rfl
  have read := h.keyed.getRevision_eq hr hb
  split_ifs at read with fits
  · exact .inl ⟨_, read, kind, b.kind_reread.trans kind⟩
  · exact .inr ⟨r, hr, rfl, b, hb, Nat.not_le.1 fits⟩

/-! ### Views by state -/

section Views
variable {x : Identity} {target : EntityId}

theorem viewOf_of_deleted (shape : x.HasShape .deleted) :
    s.viewOf x = .ok ⟨x.id, x.kind, .deleted, none, none, none⟩ := by
  rw [viewOf, shown, shape.state_eq, shape.2.2.2]
  rfl

theorem viewOf_of_active (shape : x.HasShape .active) {rev : RevisionId}
    (hrev : x.revision = some rev) : s.viewOf x =
      (s.getRevision rev).map fun r => ⟨x.id, x.kind, .active, some rev, none, some r.body⟩ := by
  rw [viewOf, shown, shape.state_eq, shape.2.2.2, hrev]
  simp only [shownRevision]
  cases s.getRevision rev <;> rfl

theorem Straight.state_eq (h : s.Straight) (hx : x ∈ s.identities)
    (hred : x.redirect = some target) : x.state = .redirect := by
  obtain ⟨live, kept⟩ := h.source x hx target hred
  simp [Identity.state, live, kept, hred]

/-- What an identity redirects to is active, or was deleted. -/
theorem Arises.getEntity_target (h : s.Arises) (hx : x ∈ s.identities)
    (hred : x.redirect = some target) : ∃ y ∈ s.identities, s.identity? target = some y ∧
      s.getEntity target = s.viewOf y ∧ (y.HasShape .active ∨ y.HasShape .deleted) := by
  obtain ⟨y, hy, -, live, straight, -⟩ := h.lands hx hred
  obtain ⟨known, rfl⟩ := h.keyed.identity?_eq_some.1 hy
  refine ⟨y, known, hy, h.keyed.getEntity_of_mem known, ?_⟩
  have shape : y.HasShape y.state := (h.isShaped y known).hasShape
  cases hstate : y.state with
  | wip => simp [hstate, Identity.HasShape, live] at shape
  | redirect => simp [hstate, Identity.HasShape, straight] at shape
  | deleted => exact .inr (hstate ▸ shape)
  | active => exact .inl (hstate ▸ shape)

/-- What readers see of an identity that redirects is what they see of its target. -/
theorem Arises.viewOf_of_redirect (h : s.Arises) (hx : x ∈ s.identities)
    (hred : x.redirect = some target) : s.viewOf x =
      (s.getEntity target).map fun w =>
        ⟨x.id, x.kind, .redirect, w.revision, some target, w.body⟩ := by
  obtain ⟨y, -, hy, same, active | deleted⟩ := h.getEntity_target hx hred
  · obtain ⟨rev, hrev⟩ := Option.isSome_iff_exists.1 active.2.2.1
    rw [viewOf, shown, h.straight.state_eq hx hred, h.shownThroughRedirect_eq hx hred hy, hred,
      same, viewOf_of_active active hrev, active.2.1, hrev]
    simp only [shownRevision]
    cases s.getRevision rev <;> rfl
  · rw [viewOf, shown, h.straight.state_eq hx hred, h.shownThroughRedirect_eq hx hred hy, hred,
      same, viewOf_of_deleted deleted, if_pos deleted.2.1]
    rfl

/-! ### Views that show what they are to show -/

theorem Arises.viewOf_cases_of_active (h : s.Arises) (hx : x ∈ s.identities)
    (shape : x.HasShape .active) :
    (∃ v, s.viewOf x = .ok v ∧ s.Shows x v .active) ∨ s.HoldsDeep x := by
  obtain ⟨rev, hrev⟩ := Option.isSome_iff_exists.1 shape.2.2.1
  rcases h.getRevision_cases ((h.grounded.identities x hx).revision rev hrev) with
    ⟨r, hr, kind, bodyKind⟩ | deep
  · rw [viewOf_of_active shape hrev, hr]
    exact .inl ⟨_, rfl, rev, r, hrev, hr, kind, bodyKind, rfl⟩
  · exact .inr ⟨rev, hrev, deep⟩

/-- The view of an identity that something was accepted of shows what it is to show, unless that
    nests too deeply. -/
theorem Arises.viewOf_cases (h : s.Arises) (hx : x ∈ s.identities) (seen : x.state ≠ .wip) :
    (∃ v, s.viewOf x = .ok v ∧ s.Shows x v x.state) ∨ s.ShowsDeep x.id := by
  have shape : x.HasShape x.state := (h.isShaped x hx).hasShape
  cases state : x.state with
  | wip => exact absurd state seen
  | deleted => exact .inl ⟨_, viewOf_of_deleted (state ▸ shape), rfl⟩
  | active =>
    rcases h.viewOf_cases_of_active hx (state ▸ shape) with shown | deep
    · exact .inl shown
    · exact .inr ⟨x, hx, rfl, .inl deep⟩
  | redirect =>
    rw [state] at shape
    obtain ⟨target, hred⟩ := Option.isSome_iff_exists.1 shape.2.2.2
    obtain ⟨y, hy, there, same, active | deleted⟩ := h.getEntity_target hx hred
    · rcases h.viewOf_cases_of_active hy active with ⟨w, hw, rev, r, -, -, -, -, rfl⟩ | deep
      · rw [h.viewOf_of_redirect hx hred, same, hw]
        exact .inl ⟨_, rfl, target, _, hred, same.trans hw, by simp, by simp, rfl⟩
      · obtain rfl := (h.keyed.identity?_eq_some.1 there).2
        exact .inr ⟨x, hx, rfl, .inr ⟨y, hy, hred, deep⟩⟩
    · have hw := same.trans (viewOf_of_deleted deleted)
      rw [h.viewOf_of_redirect hx hred, hw]
      exact .inl ⟨_, rfl, target, _, hred, hw, by simp, by simp, rfl⟩

/-- What has a revision is active. -/
theorem HoldsDeep.hasShape (deep : s.HoldsDeep x) (shaped : x.IsShaped) : x.HasShape .active := by
  obtain ⟨rev, hrev, -⟩ := deep
  have shape : x.HasShape x.state := shaped.hasShape
  cases state : x.state with
  | active => exact state ▸ shape
  | _ => simp [state, Identity.HasShape, hrev] at shape

theorem Arises.viewOf_of_holdsDeep (h : s.Arises) (hx : x ∈ s.identities) (deep : s.HoldsDeep x) :
    s.viewOf x = .error (.storage .undecodable) := by
  have shape := deep.hasShape (h.isShaped x hx)
  obtain ⟨rev, hrev, deep⟩ := deep
  rw [viewOf_of_active shape hrev, h.keyed.getRevision_of_isDeep deep]
  rfl

/-- An entity is not shown if that would be with a body that nests too deeply. -/
theorem Arises.getEntity_of_showsDeep (h : s.Arises) {id : EntityId} (deep : s.ShowsDeep id) :
    s.getEntity id = .error (.storage .undecodable) := by
  obtain ⟨x, hx, rfl, own | ⟨y, hy, hred, deep⟩⟩ := deep
  · rw [h.keyed.getEntity_of_mem hx, h.viewOf_of_holdsDeep hx own]
  · rw [h.keyed.getEntity_of_mem hx, h.viewOf_of_redirect hx hred, h.keyed.getEntity_of_mem hy,
      h.viewOf_of_holdsDeep hy deep]
    rfl

end Views

/-! ### Following identities -/

end Store

/-- Following an identity agrees with its view: it leads to the revision that is shown if there is
    a body, and else it is gone. -/
structure EntityView.Agrees (v : EntityView) (followed : Except CatalogError Resolution) :
    Prop where
  leads : v.body ≠ none → ∃ r, followed = .ok r ∧ r.effective.revision = v.revision
  gone : v.body = none ↔ ∃ what, followed = .error (.gone what)

theorem EntityView.agrees_ok {v : EntityView} {r : Resolution} (body : v.body ≠ none)
    (revision : r.effective.revision = v.revision) : v.Agrees (.ok r) :=
  ⟨fun _ => ⟨r, rfl, revision⟩, by simp [body]⟩

theorem EntityView.agrees_gone {v : EntityView} (body : v.body = none) (what : Deleted) :
    v.Agrees (.error (.gone what)) :=
  ⟨fun some => absurd body some, by simp [body]⟩

namespace Store

variable {s : Store} {x : Identity} {v : EntityView}

/-- Readers who follow an identity that they are shown come to the revision that they are shown. -/
theorem Arises.agrees (h : s.Arises) (hx : x ∈ s.identities) (hv : s.viewOf x = .ok v) :
    v.Agrees (s.resolve x.id) := by
  have known := h.keyed.identity?_eq_some.2 ⟨hx, rfl⟩
  have shape : x.HasShape x.state := (h.isShaped x hx).hasShape
  cases state : x.state with
  | wip =>
    rw [viewOf_of_wip (Identity.state_eq_wip.1 state)] at hv
    cases hv
  | deleted =>
    rw [state] at shape
    rw [viewOf_of_deleted shape] at hv
    cases hv
    rw [resolve_of_redirect_none known shape.2.2.2, if_pos shape.2.1]
    exact EntityView.agrees_gone rfl _
  | active =>
    rw [state] at shape
    obtain ⟨rev, hrev⟩ := Option.isSome_iff_exists.1 shape.2.2.1
    rw [viewOf_of_active shape hrev] at hv
    obtain ⟨r, -, rfl⟩ := Except.map_eq_ok.1 hv
    rw [resolve_of_redirect_none known shape.2.2.2, shape.2.1]
    exact EntityView.agrees_ok (Option.some_ne_none _) hrev
  | redirect =>
    rw [state] at shape
    obtain ⟨target, hred⟩ := Option.isSome_iff_exists.1 shape.2.2.2
    rw [h.viewOf_of_redirect hx hred] at hv
    obtain ⟨w, hw, rfl⟩ := Except.map_eq_ok.1 hv
    obtain ⟨y, hy, there, same, active | deleted⟩ := h.getEntity_target hx hred
    · obtain ⟨rev, hrev⟩ := Option.isSome_iff_exists.1 active.2.2.1
      rw [same, viewOf_of_active active hrev] at hw
      obtain ⟨r, -, rfl⟩ := Except.map_eq_ok.1 hw
      rw [h.resolve_of_redirect known hred there, active.2.1]
      exact EntityView.agrees_ok (Option.some_ne_none _) hrev
    · rw [same, viewOf_of_deleted deleted] at hw
      cases hw
      rw [h.resolve_of_redirect known hred there, if_pos deleted.2.1]
      exact EntityView.agrees_gone rfl _

/-- Following an identity fails if there is none, or it or what it redirects to was deleted. -/
theorem Arises.resolve_cases (h : s.Arises) (id : EntityId) :
    (∃ r, s.resolve id = .ok r) ∨ (∃ what, s.resolve id = .error (.gone what)) ∨
      s.resolve id = .error (.notFound (.identity id)) ∧ ∀ x ∈ s.identities, x.id ≠ id := by
  cases hx : s.identity? id with
  | none =>
    refine .inr (.inr ⟨resolve_of_none hx, fun x mem same => ?_⟩)
    cases hx.symm.trans (h.keyed.identity?_eq_some.2 ⟨mem, same⟩)
  | some x =>
    cases hred : x.redirect with
    | none =>
      rw [resolve_of_redirect_none hx hred]
      cases x.isDeleted <;> simp
    | some target =>
      obtain ⟨y, hy, -⟩ := h.lands (List.mem_of_find?_eq_some hx) hred
      rw [h.resolve_of_redirect hx hred hy]
      cases y.isDeleted <;> simp

theorem Hides.getEntity_eq {id : EntityId} (h : s.Hides id) :
    s.getEntity id = .error (.notFound (.identity id)) := by
  rw [getEntity, getIdentity]
  cases hx : s.identity? id with
  | none => rfl
  | some x =>
    have mem := List.mem_of_find?_eq_some hx
    obtain rfl : x.id = id := by simpa using List.find?_some hx
    rw [found, Except.ok_bind, viewOf_of_wip (Identity.state_eq_wip.1 (h x mem rfl))]

/-- What readers get to see of an entity: nothing, a view that shows what it is to show, or nothing
    for want of a body that can be read. -/
theorem Arises.getEntity_cases (h : s.Arises) (id : EntityId) :
    s.Hides id ∨
      (∃ x ∈ s.identities, x.id = id ∧ ∃ v, s.getEntity id = .ok v ∧ s.viewOf x = .ok v ∧
        s.Shows x v x.state) ∨ s.ShowsDeep id := by
  by_cases hides : s.Hides id
  · exact .inl hides
  simp only [Hides, not_forall] at hides
  obtain ⟨x, hx, rfl, seen⟩ := hides
  have same := h.keyed.getEntity_of_mem hx
  rcases h.viewOf_cases hx seen with ⟨v, hv, shows⟩ | deep
  · exact .inr (.inl ⟨x, hx, rfl, v, same.trans hv, hv, shows⟩)
  · exact .inr (.inr deep)

/-- Readers are told that there is no such entity exactly if it is hidden from them. -/
theorem Arises.getEntity_eq_notFound_iff (h : s.Arises) {id : EntityId} :
    s.getEntity id = .error (.notFound (.identity id)) ↔ s.Hides id := by
  refine ⟨fun failed => ?_, Hides.getEntity_eq⟩
  rcases h.getEntity_cases id with hides | ⟨x, -, -, v, shown, -⟩ | deep
  · exact hides
  · cases failed.symm.trans shown
  · cases failed.symm.trans (h.getEntity_of_showsDeep deep)

/-- An entity cannot be read exactly if that would be with a body that nests too deeply. -/
theorem Arises.getEntity_eq_undecodable_iff (h : s.Arises) {id : EntityId} :
    s.getEntity id = .error (.storage .undecodable) ↔ s.ShowsDeep id := by
  refine ⟨fun failed => ?_, h.getEntity_of_showsDeep⟩
  rcases h.getEntity_cases id with hides | ⟨x, -, -, v, shown, -⟩ | deep
  · cases failed.symm.trans hides.getEntity_eq
  · cases failed.symm.trans shown
  · exact deep

/-- Whoever follows an identity that cannot be shown comes to the body that keeps it from that. -/
theorem Arises.resolve_of_showsDeep (h : s.Arises) {id : EntityId} (deep : s.ShowsDeep id) :
    ∃ r, s.resolve id = .ok r ∧ s.HoldsDeep r.effective := by
  obtain ⟨x, hx, rfl, own | ⟨y, hy, hred, deep⟩⟩ := deep
  · have shape := own.hasShape (h.isShaped x hx)
    refine ⟨.current x, ?_, own⟩
    rw [resolve_of_redirect_none (h.keyed.identity?_eq_some.2 ⟨hx, rfl⟩) shape.2.2.2, shape.2.1]
    rfl
  · have shape := deep.hasShape (h.isShaped y hy)
    refine ⟨.redirectsTo x y, ?_, deep⟩
    rw [h.resolve_of_redirect (h.keyed.identity?_eq_some.2 ⟨hx, rfl⟩) hred
      (h.keyed.identity?_eq_some.2 ⟨hy, rfl⟩), shape.2.1]
    rfl

end Store

namespace Catalog

/-- Views and resolutions agree. Readers are told that an entity is not found if and only if there
    is none with its identifier or nothing of it was accepted. Otherwise they are shown it by its
    state, unless the body that it is to be shown with nests deeper than a text that is read may;
    and whoever follows its identity comes to the revision that they are shown, and is told that it
    is gone if they are shown no body. Following an identity fails in no other way than these two,
    and it leads to a body that nests too deeply as well. -/
theorem Reachable.views_and_resolutions_agree {src : Source} {c : Catalog} (h : Reachable src c)
    (id : EntityId) :
    (c.getEntity id = .error (.notFound (.identity id)) ↔ c.Hides id) ∧
      (c.getEntity id = .error (.storage .undecodable) ↔ c.ShowsDeep id) ∧
      (∀ err, c.getEntity id = .error err →
        err = .notFound (.identity id) ∨ err = .storage .undecodable) ∧
      (∀ v, c.getEntity id = .ok v →
        (∃ x ∈ c.identities, x.id = id ∧ c.Shows x v x.state) ∧ v.Agrees (c.resolve id)) ∧
      (c.ShowsDeep id → ∃ r, c.resolve id = .ok r ∧ c.HoldsDeep r.effective) ∧
      ∀ err, c.resolve id = .error err →
        err = .notFound (.identity id) ∧ (∀ x ∈ c.identities, x.id ≠ id) ∨
          ∃ what, err = .gone what := by
  have arises := h.arises
  refine ⟨arises.getEntity_eq_notFound_iff, arises.getEntity_eq_undecodable_iff,
    fun err failed => ?_, fun v shown => ?_, arises.resolve_of_showsDeep, fun err failed => ?_⟩
  · rcases arises.getEntity_cases id with hides | ⟨_, _, _, _, shown, -⟩ | deep
    · exact .inl (Except.error.inj (failed.symm.trans hides.getEntity_eq))
    · cases failed.symm.trans shown
    · exact .inr (Except.error.inj (failed.symm.trans (arises.getEntity_of_showsDeep deep)))
  · rcases arises.getEntity_cases id with hides | ⟨x, hx, rfl, w, shown', view, shows⟩ | deep
    · cases shown.symm.trans hides.getEntity_eq
    · obtain rfl := Except.ok.inj (shown.symm.trans shown')
      exact ⟨⟨x, hx, rfl, shows⟩, arises.agrees hx view⟩
    · cases shown.symm.trans (arises.getEntity_of_showsDeep deep)
  · rcases arises.resolve_cases id with ⟨r, ok⟩ | ⟨what, gone⟩ | ⟨unknown, none⟩
    · cases failed.symm.trans ok
    · exact .inr ⟨what, Except.error.inj (failed.symm.trans gone)⟩
    · exact .inl ⟨Except.error.inj (failed.symm.trans unknown), none⟩

/-- The one that was not accepted is not found; the one that is merged is shown with what the other
    one is shown with, and followed to its revision. -/
theorem assorted_views_and_resolutions_agree :
    assorted.getEntity (.nth 18) = .error (.notFound (.identity (.nth 18))) ∧
      ∃ v w, assorted.getEntity (.nth 7) = .ok v ∧ assorted.getEntity (.nth 11) = .ok w ∧
        v.revision = w.revision ∧ v.body = w.body ∧ v.Agrees (assorted.resolve (.nth 7)) := by
  have agree := fun id => Reachable.views_and_resolutions_agree
    (show Reachable .counting assorted from leads_play ..) id
  have wip : ∀ x ∈ assorted.identities, x.id = .nth 18 → x.state = .wip := by decide +kernel
  have redirects : ∀ x ∈ assorted.identities, x.id = .nth 7 →
      x.state = .redirect ∧ x.redirect = some (.nth 11) := by decide +kernel
  have reads : (assorted.getEntity (.nth 7)).isOk = true := by decide +kernel
  refine ⟨(agree _).1.2 wip, ?_⟩
  cases hv : assorted.getEntity (.nth 7) with
  | error err =>
    rw [hv] at reads
    cases reads
  | ok v =>
    obtain ⟨-, -, -, views, -⟩ := agree (.nth 7)
    obtain ⟨⟨x, hx, hid, shows⟩, agrees⟩ := views v hv
    obtain ⟨state, hred⟩ := redirects x hx hid
    rw [state] at shows
    obtain ⟨target, w, hred', hw, -, -, view⟩ := shows
    obtain rfl := Option.some.inj (hred.symm.trans hred')
    exact ⟨v, w, rfl, hw, by rw [view], by rw [view], agrees⟩

/-! ### An entity that cannot be shown -/

section Deep
variable {src : Source} {c d : Catalog} {body : EntityBody} {rev : RevisionId}

/-- What was created is stored from then on. -/
theorem Reachable.revision_stays (h : Reachable src c)
    (ok : (Operation.createRevision body).answer src c = .ok rev)
    (run : Leads src ((Operation.createRevision body).after src c) d) :
    ∃ r ∈ d.revisions, r.id = rev ∧ r.IsOf body := by
  have there := h.arises.after src (.createRevision body)
  obtain ⟨valid, -, -, after⟩ :=
    Store.createRevision_eq_ok.1 (Write.run_eq_ok.1 (Prod.ext ok rfl))
  have revisions : ((Operation.createRevision body).after src c).revisions =
      c.revisions ++ [.ofBody body rev (src.time c.ticks)] :=
    congrArg (fun d : Catalog => d.revisions) after
  have stored : .ofBody body rev (src.time c.ticks) ∈
      ((Operation.createRevision body).after src c).revisions :=
    revisions ▸ List.mem_append_right _ (List.mem_singleton_self _)
  have retains := (run.becomes there).retains there
  exact ⟨_, retains.revisions.subset stored, rfl, (List.append_eq_nil_iff.1 valid).1, rfl⟩

/-- A release with metadata that nests deep. -/
def deepBook (depth : Nat) : EntityBody :=
  .release { title := "a deep book", workId := some (.nth 3), doi := some "10.1234/deep"
             extra := .ofMembers [("deep", .nested depth)] }

example : (deepBook 124).nesting = Json.maxDepth := by decide +kernel

/-- An editor and a work. -/
def shelf : Catalog := Catalog.empty.play .counting [
  ⟨.createEditor "someone"⟩, ⟨.autoaccept (.nth 0) (.work {})⟩]

theorem shelf_accepts (depth : Nat) (h : depth ∈ [124, 125]) :
    (Operation.createRevision (deepBook depth)).answer .counting shelf = .ok (.nth 5) := by
  revert depth
  decide +kernel

/-- The example with an entity that is made live with a revision of such a release. -/
def deepShelf : Catalog :=
  ((Operation.createRevision (deepBook 125)).after .counting shelf).play .counting [
    ⟨.createEditgroup (.nth 0) none .empty⟩,
    ⟨.stageEdit (.nth 6) (.new .release) none (.update (.nth 5))⟩, ⟨.accept (.nth 6)⟩]

theorem deepShelf_reachable : Reachable .counting deepShelf :=
  (Leads.go _ (leads_play ..)).trans (leads_play ..)

theorem deepShelf_stores :
    ∃ r ∈ deepShelf.revisions, r.id = .nth 5 ∧ r.IsOf (deepBook 125) :=
  Reachable.revision_stays (leads_play ..) (shelf_accepts 125 (by decide)) (leads_play ..)

theorem deepBook_is_deep : Json.maxDepth < (deepBook 125).nesting := by decide +kernel

/-- The entity is active, and it is not shown. -/
theorem active_deep_book_is_not_shown :
    Reachable .counting deepShelf ∧
      (∃ x ∈ deepShelf.identities, x.id = .nth 7 ∧ x.state = .active) ∧
      ¬deepShelf.Hides (.nth 7) ∧
      deepShelf.getEntity (.nth 7) = .error (.storage .undecodable) := by
  obtain ⟨x, hx, hid, active, hrev⟩ : ∃ x ∈ deepShelf.identities, x.id = .nth 7 ∧
      x.state = .active ∧ x.revision = some (.nth 5) := by decide +kernel
  obtain ⟨r, hr, stored, hb⟩ := deepShelf_stores
  have deep : deepShelf.ShowsDeep (.nth 7) :=
    ⟨x, hx, hid, .inl ⟨.nth 5, hrev, r, hr, stored, _, hb, deepBook_is_deep⟩⟩
  refine ⟨deepShelf_reachable, ⟨x, hx, hid, active⟩, fun hides => ?_,
    deepShelf_reachable.arises.getEntity_of_showsDeep deep⟩
  cases active.symm.trans (hides x hx hid)

end Deep

end Catalog

end Biblio
