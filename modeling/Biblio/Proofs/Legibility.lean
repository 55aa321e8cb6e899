import Biblio.Proofs.Lookups

/-! Which revisions can be read.

    Nothing limits how deeply the metadata of a body nests when a revision of it is created, but a
    text that nests more than 127 deep is not read. The text of a body that nests deeper is stored
    all the same; neither the revision nor an entity that is made live with it can be read then. It
    is only the depth that matters: any other revision is read with its body. -/

namespace Biblio.Store

variable {s : Store} {b : EntityBody}

/-- A text that nests too deeply cannot be decoded. -/
theorem decodeStored_of_deep (deep : Json.maxDepth < b.nesting) :
    decodeStored EntityBody.decoder b.canonicalText = .error (.storage .undecodable) := by
  obtain ⟨f, failed⟩ := EntityBody.ofText_canonicalText_of_deep deep
  rw [decodeStored, failed]

/-- Without a view there is nothing to expand. -/
theorem expandedRelease_of_error {id : EntityId} {err : CatalogError}
    (failed : s.getEntity id = .error err) (flags : ExpandFlags) (hidden : HideFlags) :
    s.expandedRelease id flags hidden = .error err := by
  rw [expandedRelease, failed]
  rfl

end Biblio.Store

namespace Biblio.Catalog

open Store

variable {src : Source} {c d : Catalog} {body : EntityBody} {rev : RevisionId}

/-- A revision that was created can be read from then on if and only if its body does not nest too
    deeply; then it is read with that body, and so are entities that were made live with it. A body
    that nests deeper is accepted all the same, but its text cannot be decoded: neither the revision
    can be read, nor can such an entity, whether it is asked for by its identity or by an external
    identifier, or to be expanded. -/
theorem Reachable.created_is_read_iff_shallow (h : Reachable src c)
    (ok : (Operation.createRevision body).answer src c = .ok rev)
    (run : Leads src ((Operation.createRevision body).after src c) d) (handle : Handle) :
    ∃ r ∈ d.revisions, r.id = rev ∧ r.bodyText = body.canonicalText ∧
      (body.nesting ≤ Json.maxDepth →
        decodeStored EntityBody.decoder r.bodyText = .ok body.reread ∧
        (Query.revision rev).answer handle d.toStore =
          .ok ⟨rev, body.kind, body.reread, body.fingerprint, r.createdAt⟩ ∧
        ∀ x ∈ d.identities, x.state = .active → x.revision = some rev → ∀ hidden,
          (Query.entity x.id hidden).answer handle d.toStore =
            .ok ((EntityView.active x body.reread).hide hidden)) ∧
      (Json.maxDepth < body.nesting →
        decodeStored EntityBody.decoder r.bodyText = .error (.storage .undecodable) ∧
        (Query.revision rev).answer handle d.toStore = .error (.storage .undecodable) ∧
        ∀ x ∈ d.identities, x.state = .active → x.revision = some rev →
          (∀ hidden, (Query.entity x.id hidden).answer handle d.toStore =
            .error (.storage .undecodable)) ∧
          (∀ e ∈ body.externalIds, d.findByExternalId? e = some x →
            (Query.lookup e).answer handle d.toStore = .error (.storage .undecodable)) ∧
          ∀ flags hidden, (Query.expandedRelease x.id flags hidden).answer handle d.toStore =
            .error (.storage .undecodable)) := by
  obtain ⟨r, hr, rfl, hb⟩ := h.revision_stays ok run
  have arises : d.Arises := (h.arises.after src _).becomes (run.becomes (h.arises.after src _))
  have text : r.bodyText = body.canonicalText := by rw [hb.2]; rfl
  have fingerprint : r.fingerprint = body.fingerprint := by rw [hb.2]; rfl
  have read := arises.keyed.getRevision_eq hr hb
  refine ⟨r, hr, rfl, text, fun shallow => ⟨?_, ?_, ?_⟩, fun deep => ⟨?_, ?_, ?_⟩⟩
  · rw [text, decodeStored, EntityBody.ofText_canonicalText shallow]
  · rw [Query.answer, read, if_pos shallow, fingerprint]
  · intro x hx active hrev hidden
    rw [Query.answer, getEntityWith, arises.keyed.getEntity_of_mem hx,
      arises.viewOf_of_hasBody ⟨hx, active, r, hr, hrev, hb⟩, if_pos shallow]
    rfl
  · rw [text, decodeStored_of_deep deep]
  · rw [Query.answer, read, if_neg (Nat.not_le.2 deep)]
  · intro x hx active hrev
    have view := arises.viewOf_of_hasBody ⟨hx, active, r, hr, hrev, hb⟩
    rw [if_neg (Nat.not_le.2 deep)] at view
    have entity := (arises.keyed.getEntity_of_mem hx).trans view
    refine ⟨fun hidden => ?_, fun e he found => ?_, expandedRelease_of_error entity⟩
    · rw [Query.answer, getEntityWith, entity]
      rfl
    · exact (lookup_of_found (EntityBody.isWellFormed_of_mem hb.1 he) found).trans view

/-- Of two revisions the one that nests a step deeper cannot be read. -/
theorem shelf_created_is_read_iff_shallow :
    (∃ r, (Query.revision (.nth 5)).answer ⟨{}, .nth 0⟩
        ((Operation.createRevision (deepBook 124)).after .counting shelf).toStore = .ok r) ∧
      (Query.revision (.nth 5)).answer ⟨{}, .nth 0⟩
        ((Operation.createRevision (deepBook 125)).after .counting shelf).toStore =
        .error (.storage .undecodable) := by
  have reachable : Reachable .counting shelf := leads_play ..
  obtain ⟨r, -, -, -, shallow, -⟩ := reachable.created_is_read_iff_shallow
    (shelf_accepts 124 (by decide)) .stay ⟨{}, .nth 0⟩
  obtain ⟨r', -, -, -, -, deep⟩ := reachable.created_is_read_iff_shallow
    (shelf_accepts 125 (by decide)) .stay ⟨{}, .nth 0⟩
  exact ⟨⟨_, (shallow (by decide +kernel)).2.1⟩, (deep (by decide +kernel)).2.1⟩

/-- A body is accepted whose text cannot be decoded; an entity that is made live with it can neither
    be read nor looked up nor expanded. -/
theorem deep_book_is_accepted_and_cannot_be_read :
    (Operation.createRevision (deepBook 125)).answer .counting shelf = .ok (.nth 5) ∧
      decodeStored EntityBody.decoder (deepBook 125).canonicalText =
        .error (.storage .undecodable) ∧
      deepShelf.getRevision (.nth 5) = .error (.storage .undecodable) ∧
      deepShelf.getEntity (.nth 7) = .error (.storage .undecodable) ∧
      deepShelf.lookup ⟨.doi, "10.1234/deep"⟩ = .error (.storage .undecodable) ∧
      deepShelf.expandedRelease (.nth 7) .all .none = .error (.storage .undecodable) := by
  have arises := deepShelf_reachable.arises
  obtain ⟨x, hx, active, hrev, hx7, found⟩ : ∃ x ∈ deepShelf.identities, x.state = .active ∧
      x.revision = some (.nth 5) ∧ x.id = .nth 7 ∧
        deepShelf.findByExternalId? ⟨.doi, "10.1234/deep"⟩ = some x := by decide +kernel
  obtain ⟨r, hr, hid, hb⟩ := deepShelf_stores
  have revision := arises.keyed.getRevision_eq hr hb
  have view := arises.viewOf_of_hasBody ⟨hx, active, r, hr, hid ▸ hrev, hb⟩
  rw [if_neg (Nat.not_le.2 deepBook_is_deep)] at revision view
  have entity : deepShelf.getEntity (.nth 7) = .error (.storage .undecodable) :=
    hx7 ▸ (arises.keyed.getEntity_of_mem hx).trans view
  refine ⟨shelf_accepts 125 (by decide), decodeStored_of_deep deepBook_is_deep, hid ▸ revision,
    entity, ?_, ?_⟩
  · exact (lookup_of_found (by decide +kernel) found).trans view
  · exact expandedRelease_of_error entity .all .none

end Biblio.Catalog
