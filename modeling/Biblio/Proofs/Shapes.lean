import Biblio.Proofs.Operations

/-! The four shapes of an identity.

    What an identity is to readers settles all that is stored of it: one that is not accepted or was
    deleted points nowhere, an active one at a revision of its own kind, a redirecting one at
    another identity. So nothing that is live takes an edit without a base. -/

namespace Biblio

/-- What is stored of an identity in each state. -/
def Identity.HasShape (x : Identity) : EntityState → Prop
  | .wip => x.isLive = false ∧ x.isDeleted = false ∧ x.revision = none ∧ x.redirect = none
  | .active =>
    x.isLive = true ∧ x.isDeleted = false ∧ x.revision.isSome = true ∧ x.redirect = none
  | .redirect =>
    x.isLive = true ∧ x.isDeleted = false ∧ x.revision = none ∧ x.redirect.isSome = true
  | .deleted => x.isLive = true ∧ x.isDeleted = true ∧ x.revision = none ∧ x.redirect = none

namespace Identity

section Shape
variable {x : Identity} {state : EntityState}

/-- No identity has two shapes: each shape shows in the state. -/
theorem HasShape.state_eq (h : x.HasShape state) : x.state = state := by
  cases state <;> simp_all [HasShape, Identity.state]

theorem IsShaped.hasShape (h : x.IsShaped) : x.HasShape x.state := by
  cases live : x.isLive with
  | false =>
    obtain ⟨kept, nowhere⟩ := h.unaccepted live
    have state : x.state = .wip := by simp [Identity.state, live]
    rw [state]
    exact ⟨live, kept, Prod.mk.inj nowhere⟩
  | true =>
    cases deleted : x.isDeleted with
    | true =>
      have state : x.state = .deleted := by simp [Identity.state, live, deleted]
      rw [state]
      exact ⟨live, deleted, Prod.mk.inj (h.deleted deleted)⟩
    | false =>
      have pointed := h.pointed live deleted
      cases redirect : x.redirect with
      | some target =>
        have state : x.state = .redirect := by simp [Identity.state, live, deleted, redirect]
        rw [state]
        exact ⟨live, deleted, pointed.2 (by simp [redirect]), by simp [redirect]⟩
      | none =>
        have state : x.state = .active := by simp [Identity.state, live, deleted, redirect]
        rw [state]
        have revision : x.revision ≠ none := fun h => by simpa [redirect] using pointed.1 h
        exact ⟨live, deleted, Option.isSome_iff_ne_none.2 revision, redirect⟩

theorem IsShaped.hasShape_iff (h : x.IsShaped) : x.HasShape state ↔ x.state = state :=
  ⟨HasShape.state_eq, fun heq => heq ▸ h.hasShape⟩

/-- What is live and was not deleted points at one thing. -/
theorem IsShaped.isSome_ne (h : x.IsShaped) (live : x.isLive = true) (kept : x.isDeleted = false) :
    x.revision.isSome ≠ x.redirect.isSome := by
  have pointed := h.pointed live kept
  cases revision : x.revision <;> cases redirect : x.redirect <;> simp_all

/-- What points nowhere and was not deleted was never accepted. -/
theorem IsShaped.isLive_of_nowhere (h : x.IsShaped) (kept : x.isDeleted = false)
    (nowhere : x.pointer = (none, none)) : x.isLive = false := by
  obtain ⟨revision, redirect⟩ := Prod.mk.inj nowhere
  by_contra live
  exact h.isSome_ne (by simpa using live) kept (by rw [revision, redirect]; rfl)

end Shape

end Identity

namespace Store

/-- Only an identity that points where it is expected to is moved. -/
theorem moveIdentity_eq_ok {id : EntityId} {action : EditAction} {revision : Option RevisionId}
    {redirect : Option EntityId} {src : Source} {c d : Catalog} {u : Unit}
    (h : moveIdentity id action revision redirect src c = (.ok u, d)) :
    ∃ x, c.identity? id = some x ∧ x.isDeleted = false ∧ x.pointer = (revision, redirect) := by
  obtain ⟨x, hx, h⟩ := look_bind_eq_ok.1 h
  refine ⟨x, found_eq_ok.1 hx, ?_⟩
  cases stale : x.staleness? revision redirect with
  | some how =>
    rw [stale] at h
    cases h
  | none => exact staleness?_eq_none.1 stale

/-- A stored revision is found with its kind. -/
theorem Keyed.kindOfRevision?_eq_some {s : Store} (keyed : s.Keyed) {rev : RevisionId}
    {kind : EntityKind} (h : s.HasRevision rev kind) : s.kindOfRevision? rev = some kind := by
  obtain ⟨r, hr, hid, rfl⟩ := h
  rw [kindOfRevision?, revisionRow?, (find?_eq_some_iff keyed.revisions).2 ⟨hr, hid⟩]
  rfl

end Store

namespace Catalog

/-- Every identity has exactly one of the four shapes, the one that its state says. Its revision is
    there and of its own kind. If it is live and was not deleted it points either at a revision or
    at an identity; so it is moved from nowhere, or by an edit without a base that is accepted, only
    if it was never accepted before. -/
theorem Reachable.identities_have_one_shape {src : Source} {c : Catalog} (h : Reachable src c)
    {x : Identity} (hx : x ∈ c.identities) :
    (∀ state, x.HasShape state ↔ x.state = state) ∧
      (∀ rev, x.revision = some rev → c.kindOfRevision? rev = some x.kind) ∧
      (x.isLive = true → x.isDeleted = false → x.revision.isSome ≠ x.redirect.isSome) ∧
      (∀ src action u d, Store.moveIdentity x.id action none none src c = (.ok u, d) →
        x.HasShape .wip) ∧
      ∀ group entry, (Operation.accept group).answer src c = .ok entry →
        ∀ e ∈ c.editsOf group, e.ident = x.id → e.base = (none, none) → x.HasShape .wip := by
  have arises := h.arises
  have keyed := arises.keyed
  have shaped := arises.isShaped x hx
  have wip : x.isDeleted = false → x.pointer = (none, none) → x.HasShape .wip :=
    fun kept nowhere => ⟨shaped.isLive_of_nowhere kept nowhere, kept, Prod.mk.inj nowhere⟩
  refine ⟨fun _ => shaped.hasShape_iff, fun rev hrev => ?_, shaped.isSome_ne, ?_, ?_⟩
  · exact keyed.kindOfRevision?_eq_some ((arises.grounded.identities x hx).revision rev hrev)
  · intro src action u d moved
    obtain ⟨y, hy, kept, nowhere⟩ := Store.moveIdentity_eq_ok moved
    obtain rfl := Option.some.inj (hy.symm.trans (keyed.identity?_eq_some.2 ⟨hx, rfl⟩))
    exact wip kept nowhere
  · intro group entry accepted e he hid base
    rcases arises.answer_accept src group with ⟨-, -, -, takes⟩ | ⟨err, failed, -⟩
    · have fitAll := ((Store.takesAll_iff (keyed.inApplicationOrder_nodup group)).1 takes).1
      obtain ⟨y, hy, fits⟩ := fitAll e (Store.mem_inApplicationOrder.2 he)
      obtain rfl := keyed.identity_unique hy hx (fits.ident.trans hid)
      exact wip fits.kept (fits.base.trans base)
    · cases failed.symm.trans accepted

/-- A deleted work, one that is merged into another one, and one that was not accepted yet. -/
def assorted : Catalog := Catalog.empty.play .counting [
  ⟨.createEditor "someone"⟩, ⟨.autoaccept (.nth 0) (.work {})⟩, ⟨.autoaccept (.nth 0) (.work {})⟩,
  ⟨.autoaccept (.nth 0) (.work {})⟩, ⟨.createEditgroup (.nth 0) none .empty⟩,
  ⟨.deleteEntity (.nth 13) (.nth 3)⟩, ⟨.redirectEntity (.nth 13) (.nth 7) (.nth 11)⟩,
  ⟨.accept (.nth 13)⟩, ⟨.createEditgroup (.nth 0) none .empty⟩,
  ⟨.createEntity (.nth 16) (.work {})⟩]

theorem assorted_identities_have_one_shape :
    assorted.identities.map (·.state) = [.deleted, .redirect, .active, .wip] ∧
      ∃ x ∈ assorted.identities, x.state = .wip ∧ x.HasShape .wip ∧ ¬x.HasShape .active := by
  refine ⟨by decide +kernel, ?_⟩
  obtain ⟨x, hx, state⟩ : ∃ x ∈ assorted.identities, x.state = .wip := by decide +kernel
  obtain ⟨shape, -⟩ := Reachable.identities_have_one_shape
    (show Reachable .counting assorted from leads_play ..) hx
  refine ⟨x, hx, state, (shape .wip).2 state, fun active => ?_⟩
  rw [(shape .active).1 active] at state
  cases state

end Catalog

end Biblio
