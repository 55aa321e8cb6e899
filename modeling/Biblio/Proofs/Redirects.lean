import Biblio.Proofs.Operations

/-! Redirects do not chain.

    The checks at acceptance see to it that a redirect leads to an identity that does not redirect,
    and that an identity others redirect to is not made to redirect itself. An edit may make the
    target of a redirect redirect no more, but it cannot make it cease to be live. -/

namespace Biblio

namespace Store

/-- An identity that redirects is live and was not deleted, and leads to one that is live and does
    not redirect. -/
structure Straight (s : Store) : Prop where
  source : ∀ x ∈ s.identities, ∀ target, x.redirect = some target →
    x.isLive = true ∧ x.isDeleted = false
  lands : ∀ x ∈ s.identities, ∀ target, x.redirect = some target →
    ∃ y ∈ s.identities, y.id = target ∧ y.isLive = true ∧ y.redirect = none

section Straight
variable {s : Store}

/-- An edit leaves the target of a redirect in place, and makes no target redirect. -/
theorem Straight.target (h : s.Straight) {e : Edit} (takes : s.Takes e) {x y : Identity}
    (hx : x ∈ s.identities) (redirects : x.redirect = some y.id) (live : y.isLive = true)
    (redirect : y.redirect = none) :
    (y.under [e]).isLive = true ∧ (y.under [e]).redirect = none := by
  refine ⟨Identity.under_isLive live, ?_⟩
  rcases Identity.under_cases [e] y with ⟨same, -⟩ | ⟨f, hf, hid, changed⟩
  · rw [same, redirect]
  obtain rfl := List.mem_singleton.1 hf
  rw [changed, Identity.after_redirect]
  cases hact : f.action with
  | redirect target =>
    -- it cannot come to redirect: something that is live redirects to it
    rw [hid] at redirects
    have untargeted := (takes.redirects target hact).untargeted x hx redirects
    exact absurd (h.source x hx _ redirects) untargeted
  | _ => rfl

/-- Where an identity redirects behind an edit, it did before, or the edit makes it. -/
theorem Takes.redirect_cases {e : Edit} (takes : s.Takes e) (keyed : s.Keyed) {x : Identity}
    (hx : x ∈ s.identities) {target : EntityId} (redirects : (x.under [e]).redirect = some target) :
    x.under [e] = x ∧ x.redirect = some target ∨
      x.under [e] = x.after e.action ∧ e.Fits x ∧ e.action = .redirect target := by
  have distinct : ([e].map (·.ident)).Nodup := List.nodup_singleton _
  rcases TakesAll.under_cases keyed distinct ⟨takes, trivial⟩ hx with
    ⟨same, -⟩ | ⟨f, hf, fits, changed⟩
  · exact .inl ⟨same, same ▸ redirects⟩
  · obtain rfl := List.mem_singleton.1 hf
    rw [changed, Identity.after_redirect] at redirects
    exact .inr ⟨changed, fits, EditAction.target?_eq_some.1 redirects⟩

/-- An edit that takes effect leaves redirects straight. -/
theorem Straight.written (h : s.Straight) {e : Edit} (takes : s.Takes e) (keyed : s.Keyed) :
    (s.written [e]).Straight := by
  constructor
  · intro z hz target redirects
    obtain ⟨x, hx, rfl⟩ := List.mem_map.1 hz
    rcases takes.redirect_cases keyed hx redirects with ⟨same, hred⟩ | ⟨changed, fits, hact⟩
    · rw [same]
      exact h.source x hx target hred
    · rw [changed, hact]
      exact ⟨rfl, fits.kept⟩
  · intro z hz target redirects
    obtain ⟨x, hx, rfl⟩ := List.mem_map.1 hz
    rcases takes.redirect_cases keyed hx redirects with ⟨-, hred⟩ | ⟨-, fits, hact⟩
    · obtain ⟨y, hy, rfl, live, redirect⟩ := h.lands x hx target hred
      exact ⟨_, List.mem_map_of_mem hy, Identity.under_id _ y, h.target takes hx hred live redirect⟩
    · obtain ⟨apart, ⟨y, hy, hid, live, -, redirect⟩, -⟩ := takes.redirects target hact
      have other : y.under [e] = y := Identity.under_of_forall_ne (by simpa [hid] using apart.symm)
      exact ⟨y, List.mem_map.2 ⟨y, hy, other⟩, hid, live, redirect⟩

end Straight

theorem Arises.straight {s : Store} (h : s.Arises) : s.Straight := by
  induction h using Arises.induction with
  | empty => exact ⟨fun _ h => (nomatch h), fun _ h => (nomatch h)⟩
  | change arises step ih =>
    cases step with
    | stageNew x e may =>
      have nowhere : x.redirect = none := (Prod.mk.inj may.unaccepted.2.2).2
      constructor
      · refine List.forall_mem_append.2 ⟨ih.source, List.forall_mem_singleton.2 ?_⟩
        simp [nowhere]
      · refine List.forall_mem_append.2 ⟨fun y hy target redirects => ?_,
          List.forall_mem_singleton.2 (by simp [nowhere])⟩
        obtain ⟨z, hz, rest⟩ := ih.lands y hy target redirects
        exact ⟨z, List.mem_append_left _ hz, rest⟩
    | accept group closedAt acceptedAt writable takes =>
      -- the checks of an edit see what the edits before it left, so that the induction is on these
      have distinct := arises.keyed.inApplicationOrder_nodup group
      have both := takes.induction (P := fun s => s.Keyed ∧ s.Straight)
        (fun takes h => ⟨h.1.written _, h.2.written takes h.1⟩) distinct ⟨arises.keyed, ih⟩
      exact { both.2 with }
    | _ => exact { ih with }

/-- What a redirect leads to: an identity of the same kind that is live and does not redirect. It
    has a revision unless it was deleted. -/
theorem Arises.lands {s : Store} (h : s.Arises) {a : Identity} (ha : a ∈ s.identities)
    {b : EntityId} (hb : a.redirect = some b) :
    ∃ y, s.identity? b = some y ∧ y.kind = a.kind ∧ y.isLive = true ∧ y.redirect = none ∧
      (y.revision.isSome = true ↔ y.isDeleted = false) := by
  obtain ⟨y, hy, rfl, live, redirect⟩ := h.straight.lands a ha b hb
  obtain ⟨z, hz, hid, kind⟩ := (h.grounded.identities a ha).redirect y.id hb
  obtain rfl := h.keyed.identity_unique hz hy hid
  refine ⟨z, h.keyed.identity?_eq_some.2 ⟨hz, rfl⟩, kind, live, redirect, ?_⟩
  have shaped := h.isShaped z hz
  constructor
  · intro revision
    by_contra deleted
    have := (Prod.mk.inj (shaped.deleted (by simpa using deleted))).1
    simp [this] at revision
  · intro kept
    have := shaped.pointed live kept
    rw [redirect] at this
    exact Option.isSome_iff_ne_none.2 (by simpa using this)

theorem resolve_of_none {s : Store} {id : EntityId} (h : s.identity? id = none) :
    s.resolve id = .error (.notFound (.identity id)) := by
  simp [resolve, getIdentity, h, found]

theorem resolve_of_redirect_none {s : Store} {id : EntityId} {a : Identity}
    (ha : s.identity? id = some a) (redirect : a.redirect = none) :
    s.resolve id = if a.isDeleted then .error (.gone (.identity id)) else .ok (.current a) := by
  simp only [resolve, getIdentity, ha, found, Except.ok_bind, redirect]
  cases a.isDeleted <;> rfl

/-- An identity that redirects is followed to where it leads, unless that was deleted. -/
theorem Arises.resolve_of_redirect {s : Store} (h : s.Arises) {id b : EntityId} {a y : Identity}
    (ha : s.identity? id = some a) (hb : a.redirect = some b) (hy : s.identity? b = some y) :
    s.resolve id =
      if y.isDeleted then .error (.gone (.redirectOf id b)) else .ok (.redirectsTo a y) := by
  have mem := List.mem_of_find?_eq_some ha
  have kept := (h.straight.source a mem b hb).2
  obtain ⟨z, hz, -, -, redirect, -⟩ := h.lands mem hb
  obtain rfl := Option.some.inj (hy.symm.trans hz)
  simp only [resolve, getIdentity, ha, hy, found, Except.ok_bind, kept, hb, redirect]
  cases y.isDeleted <;> rfl

end Store

namespace Catalog

/-- Redirects do not chain: an identity that redirects is live, was not deleted and is redirected to
    by none; it leads to another identity of its kind that is live, does not redirect, and has a
    revision unless it was deleted. So following an identity never meets a chain, and if it takes a
    hop, there is a revision behind it. -/
theorem Reachable.redirects_do_not_chain {src : Source} {c : Catalog} (h : Reachable src c) :
    (∀ a ∈ c.identities, ∀ b, a.redirect = some b →
      a.isLive = true ∧ a.isDeleted = false ∧ b ≠ a.id ∧
        (∃ y, c.identity? b = some y ∧ y.kind = a.kind ∧ y.isLive = true ∧ y.redirect = none ∧
          (y.revision.isSome = true ↔ y.isDeleted = false)) ∧
        ∀ x ∈ c.identities, x.redirect ≠ some a.id) ∧
      ∀ id, (∀ fault, c.resolve id ≠ .error (.redirectChain fault)) ∧
        ∀ a y, c.resolve id = .ok (.redirectsTo a y) →
          c.identity? id = some a ∧ a.redirect = some y.id ∧ y.revision.isSome = true := by
  have arises := h.arises
  refine ⟨fun a ha b hb => ?_, fun id => ?_⟩
  · obtain ⟨live, kept⟩ := arises.straight.source a ha b hb
    obtain ⟨y, hy, rest⟩ := arises.lands ha hb
    obtain ⟨-, rfl⟩ := arises.keyed.identity?_eq_some.1 hy
    refine ⟨live, kept, ?_, ⟨y, hy, rest⟩, ?_⟩
    · intro same
      obtain rfl := arises.keyed.identity_unique (arises.keyed.identity?_eq_some.1 hy).1 ha same
      simp [rest.2.2.1] at hb
    · intro x hx redirects
      obtain ⟨z, hz, hid, -, redirect⟩ := arises.straight.lands x hx a.id redirects
      obtain rfl := arises.keyed.identity_unique hz ha hid
      simp [redirect] at hb
  · cases ha : c.identity? id with
    | none => simp [Store.resolve_of_none ha]
    | some a =>
      cases hb : a.redirect with
      | none =>
        rw [Store.resolve_of_redirect_none ha hb]
        cases a.isDeleted <;> simp
      | some b =>
        obtain ⟨y, hy, -, -, -, revision⟩ := arises.lands (List.mem_of_find?_eq_some ha) hb
        obtain ⟨-, rfl⟩ := arises.keyed.identity?_eq_some.1 hy
        rw [arises.resolve_of_redirect ha hb hy]
        cases hd : y.isDeleted with
        | true => simp
        | false =>
          refine ⟨by simp, ?_⟩
          rintro _ _ ⟨⟩
          exact ⟨rfl, hb, revision.2 hd⟩

/-- Two works, of which one is merged into the other. -/
def merged : Catalog := Catalog.empty.play .counting [
  ⟨.createEditor "someone"⟩, ⟨.autoaccept (.nth 0) (.work {})⟩, ⟨.autoaccept (.nth 0) (.work {})⟩,
  ⟨.createEditgroup (.nth 0) none .empty⟩, ⟨.redirectEntity (.nth 9) (.nth 3) (.nth 7)⟩,
  ⟨.accept (.nth 9)⟩]

theorem merged_redirects_do_not_chain :
    ∃ a ∈ merged.identities, a.redirect = some (.nth 7) ∧ a.isLive = true ∧
      (∃ y, merged.identity? (.nth 7) = some y ∧ y.kind = a.kind ∧ y.redirect = none) ∧
      ∀ fault, merged.resolve a.id ≠ .error (.redirectChain fault) := by
  obtain ⟨a, ha, hb⟩ : ∃ a ∈ merged.identities, a.redirect = some (.nth 7) := by decide +kernel
  obtain ⟨redirects, resolves⟩ := Reachable.redirects_do_not_chain
    (show Reachable .counting merged from leads_play ..)
  obtain ⟨live, -, -, ⟨y, hy, kind, -, redirect, -⟩, -⟩ := redirects a ha _ hb
  exact ⟨a, ha, hb, live, ⟨y, hy, kind, redirect⟩, (resolves a.id).1⟩

end Catalog

end Biblio
