import Biblio.Proofs.Creation
import Biblio.Proofs.Views

/-! Searching by what bodies say.

    The references and external identifiers of a revision are written beside its body once and for
    all, and whatever is searched for is searched for there. So a search comes upon exactly the
    active entities whose bodies say what was asked for; and what is read of a body says the same.
    Where a body that a search comes upon nests too deeply to be read, the search fails. -/

namespace Biblio

namespace Relation

variable {α β : Type} {kind kind' : RelationKind} {id : EntityId}

/-- The relation is of this kind, to this entity. -/
def leadsTo (kind : RelationKind) (target : EntityId) (l : Relation) : Bool :=
  l.kind == kind && l.target == target

theorem ofItems_map (target? : β → Option EntityId) (f : α → β) (xs : List α) :
    ofItems kind target? (xs.map f) = ofItems kind (fun x => target? (f x)) xs := by
  simp [ofItems, List.zipIdx_map, List.filterMap_map]

theorem exists_mem_ofField {target : Option EntityId} :
    (∃ l ∈ ofField kind target, l.leadsTo kind' id = true) ↔ kind = kind' ∧ target = some id := by
  cases target <;> simp [ofField, leadsTo]

theorem exists_mem_ofItems {target? : α → Option EntityId} {xs : List α} :
    (∃ l ∈ ofItems kind target? xs, l.leadsTo kind' id = true) ↔
      kind = kind' ∧ ∃ x ∈ xs, target? x = some id := by
  simp only [ofItems, List.mem_filterMap, Option.map_eq_some_iff]
  constructor
  · rintro ⟨l, ⟨⟨x, i⟩, hx, target, htarget, rfl⟩, leads⟩
    simp only [leadsTo, Bool.and_eq_true, beq_iff_eq] at leads
    exact ⟨leads.1, x, List.fst_mem_of_mem_zipIdx hx, leads.2 ▸ htarget⟩
  · rintro ⟨rfl, x, hx, htarget⟩
    obtain ⟨i, hi⟩ := List.mem_iff_getElem?.1 hx
    exact ⟨_, ⟨(x, i), List.mk_mem_zipIdx_iff_getElem?.2 hi, id, htarget, rfl⟩, by simp [leadsTo]⟩

end Relation

namespace EntityBody

variable {b : EntityBody} {id : EntityId}

/-! ### What a body says -/

@[simp] theorem relations_reread (b : EntityBody) : b.reread.relations = b.relations := by
  cases b with
  | release r => simp only [reread, relations, Release.reread, Relation.ofItems_map]; rfl
  | _ => rfl

@[simp] theorem externalIds_reread (b : EntityBody) : b.reread.externalIds = b.externalIds := by
  cases b <;> rfl

/-- The body is that of a release of this work. -/
def IsReleaseOf (work : EntityId) (b : EntityBody) : Prop :=
  ∃ r, b = .release r ∧ r.workId = some work

/-- The body is that of a file that is a copy of this release. -/
def IsCopyOf (release : EntityId) (b : EntityBody) : Prop :=
  ∃ f, b = .file f ∧ release ∈ f.releaseIds

theorem any_leadsTo {kind : RelationKind} : b.relations.any (Relation.leadsTo kind id) = true ↔
    match b with
    | .release r =>
      kind = .work ∧ r.workId = some id ∨ kind = .container ∧ r.containerId = some id ∨
        kind = .contributor ∧ (∃ c ∈ r.contribs, c.creatorId = some id) ∨
        kind = .citation ∧ ∃ c ∈ r.refs, c.targetReleaseId = some id
    | .file f => kind = .copy ∧ id ∈ f.releaseIds
    | _ => False := by
  rw [List.any_eq_true]
  cases b <;> simp only [relations, List.mem_append, or_and_right, exists_or, or_assoc,
    Relation.exists_mem_ofField, Relation.exists_mem_ofItems, eq_comm (b := kind)] <;> simp

/-- Only releases refer to works. -/
theorem isReleaseOf_iff : b.IsReleaseOf id ↔
    b.relations.any (Relation.leadsTo .work id) = true ∧ b.kind = .release := by
  rw [any_leadsTo]
  cases b <;> simp [IsReleaseOf, kind]

/-- Only files are copies. -/
theorem isCopyOf_iff : b.IsCopyOf id ↔
    b.relations.any (Relation.leadsTo .copy id) = true ∧ b.kind = .file := by
  rw [any_leadsTo]
  cases b <;> simp [IsCopyOf, kind]

/-- The identifiers of a body without faults have the syntax of their registries. -/
theorem isWellFormed_of_mem (valid : b.faults = []) {e : ExternalId} (he : e ∈ b.externalIds) :
    e.isWellFormed = true := by
  have none := List.filterMap_eq_nil_iff.1 (List.append_eq_nil_iff.1 valid).2 e he
  by_contra malformed
  simp [FieldFault.ofExternalId?, malformed] at none

end EntityBody

/-- An active identity as readers are shown it with this body. -/
def EntityView.active (x : Identity) (b : EntityBody) : EntityView :=
  ⟨x.id, x.kind, .active, x.revision, none, some b⟩

namespace Store

variable {s : Store} {x : Identity} {r : RevisionRow} {b : EntityBody}

/-- An identity is active, and its current revision is that of this body. -/
structure HasBody (s : Store) (x : Identity) (b : EntityBody) : Prop where
  known : x ∈ s.identities
  active : x.state = .active
  current : ∃ r ∈ s.revisions, x.revision = some r.id ∧ r.IsOf b

/-! ### What searches go through -/

/-- Searches go through the active identities, each with its revision. -/
theorem Arises.mem_current (h : s.Arises) :
    (x, r) ∈ s.current ↔ x ∈ s.identities ∧ x.state = .active ∧ r ∈ s.revisions ∧
      x.revision = some r.id := by
  have row : ∀ {rev}, s.revisionRow? rev = some r ↔ r ∈ s.revisions ∧ r.id = rev :=
    find?_eq_some_iff h.keyed.revisions
  rw [current, List.mem_filterMap]
  constructor
  · rintro ⟨y, hy, hxr⟩
    split_ifs at hxr with seen
    obtain ⟨r', hr, heq⟩ := Option.map_eq_some_iff.1 hxr
    obtain ⟨rfl, rfl⟩ := Prod.mk.inj heq
    obtain ⟨rev, hrev, hrow⟩ := Option.bind_eq_some_iff.1 hr
    obtain ⟨hr, rfl⟩ := row.1 hrow
    obtain ⟨live, kept⟩ : y.isLive = true ∧ y.isDeleted = false := by simpa using seen
    have straight : y.redirect = none := by
      have := (h.isShaped y hy).isSome_ne live kept
      simpa [hrev] using this
    exact ⟨hy, Identity.HasShape.state_eq ⟨live, kept, by simp [hrev], straight⟩, hr, hrev⟩
  · rintro ⟨hx, state, hr, hrev⟩
    obtain ⟨live, kept, -, -⟩ := (h.isShaped x hx).hasShape_iff.2 state
    exact ⟨x, hx, by simp [live, kept, hrev, row.2 ⟨hr, rfl⟩]⟩

theorem map_fst_filterMap_sublist {α β : Type} {f : α → Option (α × β)}
    (same : ∀ a p, f a = some p → p.1 = a) (as : List α) :
    ((as.filterMap f).map (·.1)).Sublist as := by
  induction as with
  | nil => exact .slnil
  | cons a as ih =>
    cases ha : f a with
    | none => simpa [ha] using ih.cons a
    | some p => simpa [ha, same a p ha] using ih.cons_cons a

/-- Each identity is gone through once. -/
theorem current_sublist (s : Store) : (s.current.map (·.1)).Sublist s.identities := by
  refine map_fst_filterMap_sublist (fun x p hp => ?_) s.identities
  split_ifs at hp
  obtain ⟨r, -, rfl⟩ := Option.map_eq_some_iff.1 hp
  rfl

/-- The identifiers that are written beside a revision have the syntax of their registries. -/
theorem Arises.isWellFormed (h : s.Arises) (hr : r ∈ s.revisions) {e : ExternalId}
    (he : e ∈ r.externalIds) : e.isWellFormed = true := by
  obtain ⟨b, valid, written⟩ := h.isOf r hr
  rw [written] at he
  exact EntityBody.isWellFormed_of_mem valid he

/-- What is written beside a current revision is what its body says. -/
theorem Arises.hasBody_of_current (h : s.Arises) (hxr : (x, r) ∈ s.current) :
    ∃ b, s.HasBody x b ∧ r.IsOf b := by
  obtain ⟨hx, active, hr, hrev⟩ := h.mem_current.1 hxr
  obtain ⟨b, hb⟩ := h.isOf r hr
  exact ⟨b, ⟨hx, active, r, hr, hrev, hb⟩, hb⟩

theorem Arises.current_of_hasBody (h : s.Arises) (hb : s.HasBody x b) :
    ∃ r, (x, r) ∈ s.current ∧ r.IsOf b := by
  obtain ⟨r, hr, hrev, isOf⟩ := hb.current
  exact ⟨r, h.mem_current.2 ⟨hb.known, hb.active, hr, hrev⟩, isOf⟩

theorem Arises.kind_of_hasBody (h : s.Arises) (hb : s.HasBody x b) : b.kind = x.kind := by
  obtain ⟨r, hr, hrev, isOf⟩ := hb.current
  obtain ⟨r', hr', hid, kind⟩ := (h.grounded.identities x hb.known).revision _ hrev
  rw [List.inj_on_of_nodup_map h.keyed.revisions hr' hr hid, isOf.2] at kind
  exact kind

/-- An active identity is shown with the body that its revision is of, unless that nests too
    deeply. -/
theorem Arises.viewOf_of_hasBody (h : s.Arises) (hb : s.HasBody x b) :
    s.viewOf x = if b.nesting ≤ Json.maxDepth then .ok (.active x b.reread)
      else .error (.storage .undecodable) := by
  obtain ⟨r, hr, hrev, isOf⟩ := hb.current
  have shape : x.HasShape .active := (h.isShaped x hb.known).hasShape_iff.2 hb.active
  rw [viewOf_of_active shape hrev, h.keyed.getRevision_eq hr isOf]
  split_ifs
  · rw [EntityView.active, hrev]
    rfl
  · rfl

/-! ### External identifiers -/

theorem findByExternalId?_eq_none {e : ExternalId} :
    s.findByExternalId? e = none ↔ ∀ y r, (y, r) ∈ s.current → e ∉ r.externalIds := by
  rw [findByExternalId?, List.head?_eq_none_iff, ← List.length_eq_zero_iff, List.length_mergeSort,
    List.length_eq_zero_iff, List.map_eq_nil_iff, List.filter_eq_nil_iff]
  simp

/-- No identity with this external identifier was made before the one that is found. -/
theorem findByExternalId?_eq_some {e : ExternalId} (found : s.findByExternalId? e = some x) :
    (∃ r, (x, r) ∈ s.current ∧ e ∈ r.externalIds) ∧
      ∀ y r, (y, r) ∈ s.current → e ∈ r.externalIds →
        x.createdAt.ordinal ≤ y.createdAt.ordinal := by
  obtain ⟨rest, sorted⟩ := List.head?_eq_some_iff.1 found
  have carries : ∀ y, y ∈ x :: rest ↔ ∃ r, (y, r) ∈ s.current ∧ e ∈ r.externalIds := fun y => by
    rw [← sorted, (List.mergeSort_perm _ _).mem_iff]
    simp
  refine ⟨(carries x).1 List.mem_cons_self, fun y r hy he => ?_⟩
  have ordered : (x :: rest).Pairwise fun a b =>
      decide (a.createdAt.ordinal ≤ b.createdAt.ordinal) = true := by
    rw [← sorted]
    exact List.pairwise_mergeSort (fun a b c => by simpa using Int.le_trans)
      (fun a b => by simpa using Int.le_total _ _) _
  rcases List.mem_cons.1 ((carries y).2 ⟨r, hy, he⟩) with rfl | hy
  · exact Int.le_refl _
  · simpa using List.rel_of_pairwise_cons ordered hy

/-- A search by an external identifier answers the view of what it finds. -/
theorem lookup_of_found {e : ExternalId} (wellFormed : e.isWellFormed = true)
    (found : s.findByExternalId? e = some x) : s.lookup e = s.viewOf x := by
  have checked : checkExternalId e = .ok () := by
    simp [checkExternalId, FieldFault.ofExternalId?, wellFormed]
  rw [lookup, checked, Except.ok_bind, found, Biblio.found, Except.ok_bind]

theorem lookup_of_not_found {e : ExternalId} (wellFormed : e.isWellFormed = true)
    (none : s.findByExternalId? e = none) :
    s.lookup e = .error (.notFound (.externalId e)) := by
  have checked : checkExternalId e = .ok () := by
    simp [checkExternalId, FieldFault.ofExternalId?, wellFormed]
  rw [lookup, checked, Except.ok_bind, none, found, Except.error_bind]

/-- Of the active identities whose bodies carry an identifier the one that was made first is found
    by it. -/
theorem Arises.findByExternalId?_cases (h : s.Arises) (e : ExternalId) :
    (∃ x b, s.findByExternalId? e = some x ∧ s.HasBody x b ∧ e ∈ b.externalIds ∧
        ∀ y b', s.HasBody y b' → e ∈ b'.externalIds →
          x.createdAt.ordinal ≤ y.createdAt.ordinal) ∨
      s.findByExternalId? e = none ∧ ∀ x b, s.HasBody x b → e ∉ b.externalIds := by
  have carried : ∀ y b', s.HasBody y b' → e ∈ b'.externalIds →
      ∃ r, (y, r) ∈ s.current ∧ e ∈ r.externalIds := by
    intro y b' hb' he
    obtain ⟨r, hr, isOf⟩ := h.current_of_hasBody hb'
    refine ⟨r, hr, ?_⟩
    rwa [isOf.2]
  cases found : s.findByExternalId? e with
  | some x =>
    obtain ⟨⟨r, hr, he⟩, first⟩ := findByExternalId?_eq_some found
    obtain ⟨b, hb, isOf⟩ := h.hasBody_of_current hr
    rw [isOf.2] at he
    refine .inl ⟨x, b, rfl, hb, he, fun y b' hb' he' => ?_⟩
    obtain ⟨r', hr', there⟩ := carried y b' hb' he'
    exact first y r' hr' there
  | none =>
    refine .inr ⟨rfl, fun x b hb he => ?_⟩
    obtain ⟨r, hr, there⟩ := carried x b hb he
    exact findByExternalId?_eq_none.1 found x r hr there

theorem Arises.isWellFormed_of_hasBody (h : s.Arises) (hb : s.HasBody x b) {e : ExternalId}
    (he : e ∈ b.externalIds) : e.isWellFormed = true := by
  obtain ⟨r, -, isOf⟩ := h.current_of_hasBody hb
  exact EntityBody.isWellFormed_of_mem isOf.1 he

/-! ### References -/

/-- A search answers the active identities whose bodies are wanted, each once, with what is read of
    these bodies. It fails if one of them nests too deeply to be read, and for no other reason. -/
structure Lists (s : Store) (wanted : EntityBody → Prop)
    (answer : Except CatalogError (List EntityView)) : Prop where
  answers : (∀ x b, s.HasBody x b → wanted b → b.nesting ≤ Json.maxDepth) → ∃ vs, answer = .ok vs
  fails : ∀ x b, s.HasBody x b → wanted b → Json.maxDepth < b.nesting →
    answer = .error (.storage .undecodable)
  once : ∀ vs, answer = .ok vs → (vs.map (·.ident)).Nodup
  mem : ∀ vs, answer = .ok vs →
    ∀ v, v ∈ vs ↔ ∃ x b, s.HasBody x b ∧ wanted b ∧ v = .active x b.reread

theorem mem_referrers {kind : RelationKind} {target : EntityId} :
    x ∈ s.referrers kind target ↔
      ∃ r, (x, r) ∈ s.current ∧ r.relations.any (Relation.leadsTo kind target) = true := by
  rw [referrers, byCreation, (List.mergeSort_perm _ _).mem_iff]
  simp [Relation.leadsTo]

theorem Keyed.nodup_referrers (keyed : s.Keyed) (kind : RelationKind) (target : EntityId) :
    ((s.referrers kind target).map (·.id)).Nodup := by
  refine (((List.mergeSort_perm _ _).map _).nodup_iff).2 (keyed.identities.sublist ?_)
  exact ((List.filter_sublist.map _).trans s.current_sublist).map _

theorem ident_of_viewOf {v : EntityView} (view : s.viewOf x = .ok v) : v.ident = x.id := by
  obtain ⟨_, -, ok⟩ := Except.bind_eq_ok.1 view
  cases ok
  rfl

/-- What a search for references comes upon: the identities whose bodies have them. -/
theorem Arises.mem_filter_referrers (h : s.Arises) {relation : RelationKind} {target : EntityId}
    {kind : EntityKind} :
    x ∈ (s.referrers relation target).filter (·.kind == kind) ↔
      ∃ b, s.HasBody x b ∧ b.relations.any (Relation.leadsTo relation target) = true ∧
        b.kind = kind := by
  rw [List.mem_filter, mem_referrers, beq_iff_eq]
  constructor
  · rintro ⟨⟨r, hr, leads⟩, rfl⟩
    obtain ⟨b, hb, isOf⟩ := h.hasBody_of_current hr
    rw [isOf.2] at leads
    exact ⟨b, hb, leads, h.kind_of_hasBody hb⟩
  · rintro ⟨b, hb, leads, rfl⟩
    obtain ⟨r, hr, isOf⟩ := h.current_of_hasBody hb
    refine ⟨⟨r, hr, ?_⟩, (h.kind_of_hasBody hb).symm⟩
    rwa [isOf.2]

/-- The searches for references answer the entities whose bodies have them. -/
theorem Arises.lists (h : s.Arises) (relation : RelationKind) (target : EntityId)
    (kind : EntityKind) : s.Lists
      (fun b => b.relations.any (Relation.leadsTo relation target) = true ∧ b.kind = kind)
      (s.referrersOfKind relation target kind) where
  answers shallow := by
    rcases mapM_cases (s.viewOf ·) ((s.referrers relation target).filter (·.kind == kind)) with
      ok | ⟨x, hx, err, failed, -⟩
    · exact ok
    · obtain ⟨b, hb, wanted⟩ := h.mem_filter_referrers.1 hx
      have view := h.viewOf_of_hasBody hb
      rw [if_pos (shallow x b hb wanted)] at view
      cases failed.symm.trans view
  fails x b hb wanted deep := by
    have view := h.viewOf_of_hasBody hb
    rw [if_neg (Nat.not_le.2 deep)] at view
    have hx := h.mem_filter_referrers.2 ⟨b, hb, wanted⟩
    rcases mapM_cases (s.viewOf ·) ((s.referrers relation target).filter (·.kind == kind)) with
      ⟨vs, ok⟩ | ⟨y, hy, err, failed, all⟩
    · obtain ⟨v, -, there⟩ := List.mem_map.1 (mapM_eq_ok.1 ok ▸ List.mem_map_of_mem hx)
      cases there.trans view
    · -- whichever of them the search stops at, the failure is the same
      obtain ⟨b', hb', -⟩ := h.mem_filter_referrers.1 hy
      have view' := h.viewOf_of_hasBody hb'
      split_ifs at view'
      · cases failed.symm.trans view'
      · obtain rfl := Except.error.inj (failed.symm.trans view')
        exact all
  once vs ok := by
    rw [map_eq_of_mapM_eq_ok ok fun x v => ident_of_viewOf]
    exact (h.keyed.nodup_referrers relation target).sublist (List.filter_sublist.map _)
  mem vs ok v := by
    rw [mem_of_mapM_eq_ok ok]
    constructor
    · rintro ⟨x, hx, view⟩
      obtain ⟨b, hb, wanted⟩ := h.mem_filter_referrers.1 hx
      have view' := h.viewOf_of_hasBody hb
      split_ifs at view'
      · exact ⟨x, b, hb, wanted, Except.ok.inj (view.symm.trans view')⟩
      · cases view.symm.trans view'
    · rintro ⟨x, b, hb, wanted, rfl⟩
      have hx := h.mem_filter_referrers.2 ⟨b, hb, wanted⟩
      refine ⟨x, hx, ?_⟩
      -- the search answers, so that no body that it came upon nests too deeply
      obtain ⟨v, -, there⟩ := List.mem_map.1 (mapM_eq_ok.1 ok ▸ List.mem_map_of_mem hx)
      have view := h.viewOf_of_hasBody hb
      split_ifs at view
      · exact view
      · cases there.trans view

theorem Arises.releasesForWork_lists (h : s.Arises) (work : EntityId) :
    s.Lists (·.IsReleaseOf work) (s.releasesForWork work) := by
  simp only [EntityBody.isReleaseOf_iff]
  exact h.lists .work work .release

theorem Arises.filesForRelease_lists (h : s.Arises) (release : EntityId) :
    s.Lists (·.IsCopyOf release) (s.filesForRelease release) := by
  simp only [EntityBody.isCopyOf_iff]
  exact h.lists .copy release .file

/-! ### Counting -/

/-- The answer is that there is no such thing. -/
def isNotFound {α : Type} : Except CatalogError α → Bool
  | .error (.notFound _) => true
  | _ => false

theorem Arises.countEntities_eq (h : s.Arises) (kind : EntityKind) :
    s.countEntities kind =
      s.identities.countP fun x => x.kind == kind && !isNotFound (s.getEntity x.id) := by
  rw [countEntities, countIdentities]
  refine List.countP_congr fun x hx => ?_
  have seen : isNotFound (s.getEntity x.id) = !x.isLive := by
    cases live : x.isLive with
    | false => rw [h.keyed.getEntity_of_mem hx, viewOf_of_wip live]; rfl
    | true =>
      rcases h.getEntity_cases x.id with hides | ⟨_, -, -, v, shown, -⟩ | deep
      · have wip := Identity.state_eq_wip.1 (hides x hx rfl)
        cases wip.symm.trans live
      · rw [shown]; rfl
      · rw [h.getEntity_of_showsDeep deep]; rfl
  simp [seen]

/-- Where times grow along a list, an earlier one stands further in front. -/
theorem idxOf_le_idxOf {xs : List Identity} {y : Identity}
    (sorted : xs.Pairwise fun x y => x.createdAt.ordinal < y.createdAt.ordinal) (hx : x ∈ xs)
    (hy : y ∈ xs) (le : x.createdAt.ordinal ≤ y.createdAt.ordinal) : xs.idxOf x ≤ xs.idxOf y := by
  by_contra behind
  have := List.pairwise_iff_getElem.1 sorted _ _ (List.idxOf_lt_length_of_mem hy)
    (List.idxOf_lt_length_of_mem hx) (not_le.1 behind)
  rw [List.getElem_idxOf, List.getElem_idxOf] at this
  omega

end Store

namespace Catalog

/-- Searches agree with the bodies of entities. An identifier is looked up exactly where an active
    entity carries it, and if several do, the one is found that was made first; all that they carry
    can be looked up. The releases of a work are the active releases that name it, and the files of
    a release are the active files that list it. As many entities are counted as can be shown or
    nest too deeply to be. Depth is all that makes a search fail, and only that of the bodies that
    it comes upon. -/
theorem Reachable.lookups_agree_with_bodies {src : Source} {c : Catalog} (h : Reachable src c) :
    (∀ e : ExternalId, e.isWellFormed = true →
        (∃ x b, c.HasBody x b ∧ e ∈ b.externalIds ∧
          (src.IsIncreasing c.ticks → ∀ y b', c.HasBody y b' → e ∈ b'.externalIds →
            c.identities.idxOf x ≤ c.identities.idxOf y) ∧
          c.lookup e = if b.nesting ≤ Json.maxDepth then .ok (.active x b.reread)
            else .error (.storage .undecodable)) ∨
        (∀ x b, c.HasBody x b → e ∉ b.externalIds) ∧
          c.lookup e = .error (.notFound (.externalId e))) ∧
      (∀ x b, c.HasBody x b → ∀ e ∈ b.externalIds, e.isWellFormed = true) ∧
      (∀ work, c.Lists (·.IsReleaseOf work) (c.releasesForWork work)) ∧
      (∀ release, c.Lists (·.IsCopyOf release) (c.filesForRelease release)) ∧
      ∀ kind, c.countEntities kind =
        c.identities.countP fun x => x.kind == kind && !Store.isNotFound (c.getEntity x.id) := by
  have arises := h.arises
  refine ⟨fun e wellFormed => ?_, fun x b hb e he => arises.isWellFormed_of_hasBody hb he,
    arises.releasesForWork_lists, arises.filesForRelease_lists, arises.countEntities_eq⟩
  rcases arises.findByExternalId?_cases e with ⟨x, b, found, hb, he, first⟩ | ⟨none, uncarried⟩
  · refine .inl ⟨x, b, hb, he, fun increasing y b' hb' he' => ?_, ?_⟩
    · have sorted := h.isTimed.pairwise increasing
      exact Store.idxOf_le_idxOf sorted hb.known hb'.known (first y b' hb' he')
    · rw [Store.lookup_of_found wellFormed found, arises.viewOf_of_hasBody hb]
  · exact .inr ⟨uncarried, Store.lookup_of_not_found wellFormed none⟩

/-- A release with an identifier of a registry. -/
def book : EntityBody :=
  .release { title := "a book", workId := some (.nth 3), doi := some "10.1234/abc" }

/-- Two releases of a work with the same identifier. -/
def published : Catalog := Catalog.empty.play .counting [
  ⟨.createEditor "someone"⟩, ⟨.autoaccept (.nth 0) (.work {})⟩, ⟨.autoaccept (.nth 0) book⟩,
  ⟨.autoaccept (.nth 0) book⟩]

theorem published_hasBody {x : Identity} (hx : x ∈ published.identities)
    (release : x.kind = .release) : published.HasBody x book := by
  have valid : book.faults = [] := by decide +kernel
  have there : ∀ x ∈ published.identities, x.kind = .release → x.state = .active ∧
      ∃ r ∈ published.revisions, x.revision = some r.id ∧ r = .ofBody book r.id r.createdAt := by
    decide +kernel
  obtain ⟨active, r, hr, hrev, stored⟩ := there x hx release
  exact ⟨hx, active, r, hr, hrev, valid, stored⟩

/-- All that is stored in the example can be read. -/
theorem published_shallow {x : Identity} {b : EntityBody} (hb : published.HasBody x b) :
    b.nesting ≤ Json.maxDepth := by
  have reads : ∀ r ∈ published.revisions, (published.getRevision r.id).isOk = true := by
    decide +kernel
  have reachable : Reachable .counting published := leads_play ..
  obtain ⟨r, hr, -, isOf⟩ := hb.current
  have read := reachable.arises.keyed.getRevision_eq hr isOf
  by_contra deep
  have ok := reads r hr
  rw [read, if_neg deep] at ok
  cases ok

/-- The identifier is looked up, but not with the release that was made later; both are listed. -/
theorem published_lookups_agree_with_bodies :
    (∃ v, published.lookup ⟨.doi, "10.1234/abc"⟩ = .ok v ∧ v.ident ≠ .nth 11) ∧
      ∃ vs, published.releasesForWork (.nth 3) = .ok vs ∧ ∃ v ∈ vs, v.ident = .nth 11 := by
  obtain ⟨looked, -, releases, -⟩ := Reachable.lookups_agree_with_bodies
    (show Reachable .counting published from leads_play ..)
  obtain ⟨x, hx, release, earlier⟩ : ∃ x ∈ published.identities, x.kind = .release ∧
      ∀ y ∈ published.identities, y.id = .nth 11 →
        published.identities.idxOf x < published.identities.idxOf y := by decide +kernel
  obtain ⟨y, hy, hid, release'⟩ : ∃ y ∈ published.identities, y.id = .nth 11 ∧
      y.kind = .release := by decide +kernel
  have first := published_hasBody hx release
  constructor
  · rcases looked ⟨.doi, "10.1234/abc"⟩ (by decide) with
      ⟨z, b, hb, -, before, answer⟩ | ⟨uncarried, -⟩
    · rw [if_pos (published_shallow hb)] at answer
      refine ⟨_, answer, fun same => ?_⟩
      have day : published.ticks ≤ 86400 := by decide +kernel
      have order := before (Source.counting_isIncreasing day) x book first (by decide)
      exact absurd (earlier z hb.known same) (Nat.not_lt.2 order)
    · exact absurd (show ⟨.doi, "10.1234/abc"⟩ ∈ book.externalIds by decide)
        (uncarried x book first)
  · obtain ⟨vs, ok⟩ := (releases (.nth 3)).answers fun _ _ hb _ => published_shallow hb
    refine ⟨vs, ok, .active y book.reread, ?_, hid⟩
    exact ((releases (.nth 3)).mem vs ok _).2
      ⟨y, book, published_hasBody hy release', ⟨_, rfl, rfl⟩, rfl⟩

/-- An identifier that an active entity carries is not looked up. -/
theorem deep_book_is_not_looked_up :
    Reachable .counting deepShelf ∧ (ExternalId.mk .doi "10.1234/deep").isWellFormed = true ∧
      (∃ x, deepShelf.HasBody x (deepBook 125)) ∧
      ⟨.doi, "10.1234/deep"⟩ ∈ (deepBook 125).externalIds ∧
      deepShelf.lookup ⟨.doi, "10.1234/deep"⟩ = .error (.storage .undecodable) := by
  have wellFormed : (ExternalId.mk .doi "10.1234/deep").isWellFormed = true := by decide +kernel
  obtain ⟨x, hx, active, hrev, found⟩ : ∃ x ∈ deepShelf.identities, x.state = .active ∧
      x.revision = some (.nth 5) ∧
        deepShelf.findByExternalId? ⟨.doi, "10.1234/deep"⟩ = some x := by decide +kernel
  obtain ⟨r, hr, stored, isOf⟩ := deepShelf_stores
  have hb : deepShelf.HasBody x (deepBook 125) := ⟨hx, active, r, hr, stored ▸ hrev, isOf⟩
  refine ⟨deepShelf_reachable, wellFormed, ⟨x, hb⟩, by decide +kernel, ?_⟩
  rw [Store.lookup_of_found wellFormed found, deepShelf_reachable.arises.viewOf_of_hasBody hb,
    if_neg (Nat.not_le.2 deepBook_is_deep)]

end Catalog

end Biblio
