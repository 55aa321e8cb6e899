import Biblio.Proofs.Refusals
import Biblio.Proofs.Rules

/-! The links of bodies, and which bodies are accepted.

    A link is bad when there is nothing that it leads to, or what it leads to is of the wrong kind
    or was deleted. A revision is created of every body that breaks no rule and has no bad link, and
    of no other; of those all is said at once that is wrong with them, the body before its links. -/

namespace Biblio

/-! ### Links -/

/-- A link of a body: in which way it refers to an entity, and the place in the list of such
    links. -/
structure LinkPlace where
  kind : RelationKind
  position : Nat
  deriving DecidableEq

/-- At this place a body refers to this entity. -/
inductive EntityBody.LinksTo : EntityBody → LinkPlace → EntityId → Prop
  | work {r : Release} {id : EntityId} (h : r.workId = some id) : LinksTo (.release r) ⟨.work, 0⟩ id
  | container {r : Release} {id : EntityId} (h : r.containerId = some id) :
    LinksTo (.release r) ⟨.container, 0⟩ id
  | contributor {r : Release} {i : Nat} {c : Contributor} {id : EntityId}
    (item : r.contribs[i]? = some c) (h : c.creatorId = some id) :
    LinksTo (.release r) ⟨.contributor, i⟩ id
  | citation {r : Release} {i : Nat} {c : Reference} {id : EntityId} (item : r.refs[i]? = some c)
    (h : c.targetReleaseId = some id) : LinksTo (.release r) ⟨.citation, i⟩ id
  | copy {f : File} {i : Nat} {id : EntityId} (item : f.releaseIds[i]? = some id) :
    LinksTo (.file f) ⟨.copy, i⟩ id

/-- What is wrong with a reference to an entity that ought to be of this kind. -/
inductive Store.Misses (s : Store) (id : EntityId) (kind : EntityKind) : Problem → Prop
  | unknown (h : ∀ x ∈ s.identities, x.id ≠ id) : Misses s id kind (.unknownTarget kind id)
  | wrongKind {x : Identity} (known : x ∈ s.identities) (same : x.id = id) (other : x.kind ≠ kind) :
    Misses s id kind (.wrongTarget id x.kind kind)
  | deleted {x : Identity} (known : x ∈ s.identities) (same : x.id = id) (right : x.kind = kind)
    (gone : x.isDeleted = true) : Misses s id kind (.deletedTarget kind id)

/-- A link of a body is bad, and this is the fault. -/
def Store.BreaksLink (s : Store) (b : EntityBody) (place : LinkPlace) (f : FieldFault) : Prop :=
  ∃ id problem, b.LinksTo place id ∧ s.Misses id place.kind.targetKind problem ∧
    f = ⟨b.kind.name, place.kind.field, problem⟩

/-! ### The references of a body -/

/-- The place of a reference. -/
def Relation.place (l : Relation) : LinkPlace := ⟨l.kind, l.position⟩

namespace Relation

variable {α : Type} {kind : RelationKind} {l : Relation}

theorem mem_ofField {target : Option EntityId} :
    l ∈ ofField kind target ↔ l.place = ⟨kind, 0⟩ ∧ target = some l.target := by
  obtain ⟨k, id, n⟩ := l
  cases target <;> simp [ofField, place, and_comm, and_left_comm, eq_comm]

theorem mem_ofItems {target? : α → Option EntityId} {xs : List α} :
    l ∈ ofItems kind target? xs ↔
      ∃ i x, xs[i]? = some x ∧ l.place = ⟨kind, i⟩ ∧ target? x = some l.target := by
  obtain ⟨k, id, n⟩ := l
  simp only [ofItems, List.mem_filterMap, Option.map_eq_some_iff, Prod.exists,
    List.mem_zipIdx_iff_getElem?, place, Relation.mk.injEq, LinkPlace.mk.injEq]
  constructor
  · rintro ⟨x, i, item, id, given, rfl, rfl, rfl⟩
    exact ⟨i, x, item, ⟨rfl, rfl⟩, given⟩
  · rintro ⟨i, x, item, ⟨rfl, rfl⟩, given⟩
    exact ⟨x, n, item, id, given, rfl, rfl, rfl⟩

theorem kind_of_mem_ofField {target : Option EntityId} (h : l ∈ ofField kind target) :
    l.kind = kind :=
  congrArg LinkPlace.kind (mem_ofField.1 h).1

theorem kind_of_mem_ofItems {target? : α → Option EntityId} {xs : List α}
    (h : l ∈ ofItems kind target? xs) : l.kind = kind := by
  obtain ⟨i, x, -, here, -⟩ := mem_ofItems.1 h
  exact congrArg LinkPlace.kind here

theorem nodup_ofField (kind : RelationKind) (target : Option EntityId) :
    ((ofField kind target).map place).Nodup := by
  cases target <;> simp [ofField]

/-- A list has one item at each place. -/
theorem nodup_ofItems (kind : RelationKind) (target? : α → Option EntityId) (xs : List α) :
    ((ofItems kind target? xs).map place).Nodup := by
  have places : ((ofItems kind target? xs).map place).Sublist
      (xs.zipIdx.map fun p => (⟨kind, p.2⟩ : LinkPlace)) := by
    rw [ofItems]
    induction xs.zipIdx with
    | nil => exact .slnil
    | cons p ps ih =>
      cases h : target? p.1 with
      | none => simpa [h] using ih.cons _
      | some id => simpa [h, place] using ih
  have distinct : (xs.zipIdx.map fun p => (⟨kind, p.2⟩ : LinkPlace)).Nodup := by
    have numbers : (xs.zipIdx.map Prod.snd).Nodup := by
      rw [List.zipIdx_map_snd]
      exact List.nodup_range'
    have := numbers.map (f := LinkPlace.mk kind) fun _ _ h => (LinkPlace.mk.inj h).2
    rwa [List.map_map] at this
  exact distinct.sublist places

end Relation

namespace EntityBody

theorem mem_relations {b : EntityBody} {l : Relation} :
    l ∈ b.relations ↔ b.LinksTo l.place l.target := by
  constructor
  · intro h
    cases b with
    | release r =>
      simp only [relations, List.mem_append, Relation.mem_ofField, Relation.mem_ofItems] at h
      rcases h with ((⟨here, h⟩ | ⟨here, h⟩) | ⟨i, c, item, here, h⟩) | ⟨i, c, item, here, h⟩ <;>
        rw [here]
      · exact .work h
      · exact .container h
      · exact .contributor item h
      · exact .citation item h
    | file f =>
      obtain ⟨i, id, item, here, h⟩ := Relation.mem_ofItems.1 h
      obtain rfl := Option.some.inj h
      rw [here]
      exact .copy item
    | _ => cases h
  · intro h
    obtain ⟨kind, id, position⟩ := l
    simp only [Relation.place] at h
    cases h with
    | work h =>
      simp only [relations, List.mem_append, Relation.mem_ofField, Relation.mem_ofItems]
      exact .inl (.inl (.inl ⟨rfl, h⟩))
    | container h =>
      simp only [relations, List.mem_append, Relation.mem_ofField, Relation.mem_ofItems]
      exact .inl (.inl (.inr ⟨rfl, h⟩))
    | contributor item h =>
      simp only [relations, List.mem_append, Relation.mem_ofField, Relation.mem_ofItems]
      exact .inl (.inr ⟨_, _, item, rfl, h⟩)
    | citation item h =>
      simp only [relations, List.mem_append, Relation.mem_ofField, Relation.mem_ofItems]
      exact .inr ⟨_, _, item, rfl, h⟩
    | copy item => exact Relation.mem_ofItems.2 ⟨_, _, item, rfl, rfl⟩

/-- A body has at most one reference at each place. -/
theorem nodup_relations (b : EntityBody) : (b.relations.map Relation.place).Nodup := by
  have append : ∀ {ls ms : List Relation}, (ls.map Relation.place).Nodup →
      (ms.map Relation.place).Nodup → (∀ l ∈ ls, ∀ m ∈ ms, l.kind ≠ m.kind) →
        ((ls ++ ms).map Relation.place).Nodup := by
    intro ls ms hls hms apart
    rw [List.map_append, List.nodup_append]
    refine ⟨hls, hms, ?_⟩
    rintro place here _ there rfl
    obtain ⟨l, hl, same⟩ := List.mem_map.1 here
    obtain ⟨m, hm, same'⟩ := List.mem_map.1 there
    exact apart l hl m hm (congrArg LinkPlace.kind (same.trans same'.symm))
  cases b with
  | release r =>
    have fields := append (Relation.nodup_ofField .work r.workId)
      (Relation.nodup_ofField .container r.containerId) (by
        intro l hl m hm
        rw [Relation.kind_of_mem_ofField hl, Relation.kind_of_mem_ofField hm]
        decide)
    have credits := append fields (Relation.nodup_ofItems .contributor (·.creatorId) r.contribs) (by
      intro l hl m hm
      rw [Relation.kind_of_mem_ofItems hm]
      rcases List.mem_append.1 hl with hl | hl <;> rw [Relation.kind_of_mem_ofField hl] <;> decide)
    refine append credits (Relation.nodup_ofItems .citation (·.targetReleaseId) r.refs) ?_
    intro l hl m hm
    rw [Relation.kind_of_mem_ofItems hm]
    rcases List.mem_append.1 hl with hl | hl
    · rcases List.mem_append.1 hl with hl | hl <;> rw [Relation.kind_of_mem_ofField hl] <;> decide
    · rw [Relation.kind_of_mem_ofItems hl]
      decide
  | file f => exact Relation.nodup_ofItems .copy some f.releaseIds
  | _ => exact List.nodup_nil

end EntityBody

namespace Store

variable {s : Store}

/-- What the check finds wrong with a reference is what is wrong with it. -/
theorem Keyed.relationFault?_eq_some (keyed : s.Keyed) {entity : EntityKind} {l : Relation}
    {f : FieldFault} :
    s.relationFault? entity l = some f ↔ ∃ problem,
      s.Misses l.target l.kind.targetKind problem ∧ f = ⟨entity.name, l.kind.field, problem⟩ := by
  rw [relationFault?, Option.map_eq_some_iff]
  refine exists_congr fun problem => and_congr ?_ eq_comm
  cases there : s.identity? l.target with
  | none =>
    have absent : ∀ x ∈ s.identities, x.id ≠ l.target :=
      find?_isNone_iff.1 (Option.isNone_iff_eq_none.2 there)
    constructor
    · intro wrong
      obtain rfl := Option.some.inj wrong
      exact .unknown absent
    · intro misses
      cases misses with
      | unknown => rfl
      | wrongKind known same => exact absurd same (absent _ known)
      | deleted known same => exact absurd same (absent _ known)
  | some x =>
    obtain ⟨known, same⟩ := keyed.identity?_eq_some.1 there
    have unique : ∀ {y : Identity}, y ∈ s.identities → y.id = l.target → y = x :=
      fun hy hid => keyed.identity_unique hy known (hid.trans same.symm)
    constructor
    · intro wrong
      by_cases right : x.kind = l.kind.targetKind
      · by_cases gone : x.isDeleted = true
        · obtain rfl : .deletedTarget l.kind.targetKind l.target = problem := by
            simpa [right, gone] using wrong
          exact .deleted known same right gone
        · simp [right, gone] at wrong
      · obtain rfl : .wrongTarget l.target x.kind l.kind.targetKind = problem := by
          simpa [right] using wrong
        exact .wrongKind known same right
    · intro misses
      cases misses with
      | unknown absent => exact absurd same (absent x known)
      | wrongKind known' same' other =>
        obtain rfl := unique known' same'
        simp [other]
      | deleted known' same' right gone =>
        obtain rfl := unique known' same'
        simp [right, gone]

/-- The faults of the links of a body are a full account of its bad links. -/
theorem Keyed.tallies_links (keyed : s.Keyed) (b : EntityBody) :
    Tallies (s.BreaksLink b) (b.relations.filterMap (s.relationFault? b.kind)) := by
  refine (Tallies.filterMap b.relations b.nodup_relations _).congr fun place f => ?_
  constructor
  · rintro ⟨l, hl, rfl, wrong⟩
    obtain ⟨problem, misses, rfl⟩ := keyed.relationFault?_eq_some.1 wrong
    exact ⟨l.target, problem, EntityBody.mem_relations.1 hl, misses, rfl⟩
  · rintro ⟨id, problem, links, misses, rfl⟩
    refine ⟨⟨place.kind, id, place.position⟩, EntityBody.mem_relations.2 links, rfl, ?_⟩
    exact keyed.relationFault?_eq_some.2 ⟨problem, misses, rfl⟩

/-- A body is right as things are when it breaks no rule and has no bad link. -/
def Accepts (s : Store) (b : EntityBody) : Prop :=
  (∀ rule f, ¬b.Breaks rule f) ∧ ∀ place f, ¬s.BreaksLink b place f

theorem Keyed.bodyFaults_eq_nil_iff (keyed : s.Keyed) {b : EntityBody} :
    s.bodyFaults b = [] ↔ s.Accepts b := by
  rw [bodyFaults, List.append_eq_nil_iff, b.tallies.eq_nil_iff, (keyed.tallies_links b).eq_nil_iff]
  rfl

section Creation
variable {src : Source} {c : Catalog} {body : EntityBody}

/-- A body that is not right is refused with all its faults. -/
theorem createRevision_of_faults (wrong : c.bodyFaults body ≠ []) :
    createRevision body src c = (.error (.validation (c.bodyFaults body)), c) := by
  have checked : c.checkBody body = .error (.validation (c.bodyFaults body)) := by
    unfold checkBody
    split
    · contradiction
    · rfl
  have looked : look (checkBody body) src c = (.error (.validation (c.bodyFaults body)), c) :=
    congrArg (·, c) checked
  rw [createRevision, Write.bind_apply, looked]

/-- A body that is right is accepted, as long as identifiers are new. -/
theorem createRevision_of_right (right : c.bodyFaults body = []) (new : c.IsNew (src.id c.drawn)) :
    ∃ rev d, createRevision body src c = (.ok rev, d) :=
  ⟨_, _, createRevision_eq_ok.2 ⟨right, find?_isNone_iff.1 new.revision, rfl, rfl⟩⟩

/-- A revision can be created of a body exactly when that is right, as long as identifiers are
    new. -/
theorem answer_createRevision_iff (new : c.IsNew (src.id c.drawn)) :
    (∃ rev, (Operation.createRevision body).answer src c = .ok rev) ↔ c.bodyFaults body = [] := by
  constructor
  · rintro ⟨rev, ok⟩
    exact (createRevision_eq_ok.1 (Write.run_eq_ok.1 (Prod.ext ok rfl))).1
  · intro right
    obtain ⟨rev, d, created⟩ := createRevision_of_right right new
    exact ⟨rev, congrArg Prod.fst (Write.run_eq_ok.2 created)⟩

end Creation

end Store

namespace Catalog

/-- A revision is created exactly when its body breaks no rule and all its links lead to entities
    that are there, are of the right kind and were not deleted. Otherwise it is said of every rule
    that is broken, at each place, and then of every bad link; and nothing changes. -/
theorem Reachable.created_iff_accepts {src : Source} {c : Catalog} (h : Reachable src c)
    (fresh : src.IsFresh (c.drawn + 1)) (body : EntityBody) :
    ((∃ rev, (Operation.createRevision body).answer src c = .ok rev) ↔ c.Accepts body) ∧
      (∀ rev, (Operation.createRevision body).answer src c = .ok rev →
        (∀ r ∈ c.revisions, r.id ≠ rev) ∧
          ((Operation.createRevision body).after src c).toStore =
            { c.toStore with revisions := c.revisions ++ [.ofBody body rev (src.time c.ticks)] }) ∧
      ∀ err, (Operation.createRevision body).answer src c = .error err →
        (∃ own links, err = .validation (own ++ links) ∧ own ++ links ≠ [] ∧
          Tallies body.Breaks own ∧ Tallies (c.BreaksLink body) links) ∧
        ((Operation.createRevision body).after src c).toStore = c.toStore := by
  have keyed := h.arises.keyed
  have new := h.isDrawn.isNew fresh
  by_cases right : c.bodyFaults body = []
  · have accepts := keyed.bodyFaults_eq_nil_iff.1 right
    obtain ⟨rev, d, created⟩ := Store.createRevision_of_right right new
    have performed := Write.run_eq_ok.2 created
    have ok : (Operation.createRevision body).answer src c = .ok rev := congrArg Prod.fst performed
    have after : (Operation.createRevision body).after src c = d := congrArg Prod.snd performed
    obtain ⟨-, unknown, -, rfl⟩ := Store.createRevision_eq_ok.1 created
    refine ⟨iff_of_true ⟨rev, ok⟩ accepts, fun rev' ok' => ?_, fun err failed => ?_⟩
    · obtain rfl := Except.ok.inj (ok.symm.trans ok')
      exact ⟨unknown, congrArg Catalog.toStore after⟩
    · cases ok.symm.trans failed
  · have refused : (Operation.createRevision body).answer src c =
        .error (.validation (c.bodyFaults body)) := by
      simp only [Operation.answer, Operation.perform, Write.run,
        Store.createRevision_of_faults right]
    refine ⟨iff_of_false ?_ (mt keyed.bodyFaults_eq_nil_iff.2 right), fun rev ok => ?_,
      fun err failed => ?_⟩
    · rintro ⟨rev, ok⟩
      cases refused.symm.trans ok
    · cases refused.symm.trans ok
    · obtain rfl := Except.error.inj (refused.symm.trans failed)
      exact ⟨⟨_, _, rfl, right, body.tallies, keyed.tallies_links body⟩, Write.run_error failed⟩

/-- A file without a digest and with a blank address, which names a work twice as a release. -/
def patchy : EntityBody := .file { urls := [⟨" ", "web"⟩], releaseIds := [.nth 3, .nth 3] }

/-- A release of the work is accepted; of the file all is said at once that is wrong with it. -/
theorem published_created_iff_accepts :
    published.Accepts book ∧
      ∃ own links, own ++ links =
          [⟨"file", "sha1", .noDigest⟩, ⟨"file", "urls[0].url", .empty⟩,
            ⟨"file", "release_ids", .repeatedRelease (.nth 3)⟩,
            ⟨"file", "release_ids", .wrongTarget (.nth 3) .work .release⟩,
            ⟨"file", "release_ids", .wrongTarget (.nth 3) .work .release⟩] ∧
        Tallies patchy.Breaks own ∧ Tallies (published.BreaksLink patchy) links := by
  have reachable : Reachable .counting published := leads_play ..
  have fresh : Source.counting.IsFresh (published.drawn + 1) :=
    Source.counting_isFresh (by decide +kernel)
  have ok : (Operation.createRevision book).answer .counting published = .ok (.nth 13) := by
    decide +kernel
  have refused : (Operation.createRevision patchy).answer .counting published =
      .error (.validation [⟨"file", "sha1", .noDigest⟩, ⟨"file", "urls[0].url", .empty⟩,
        ⟨"file", "release_ids", .repeatedRelease (.nth 3)⟩,
        ⟨"file", "release_ids", .wrongTarget (.nth 3) .work .release⟩,
        ⟨"file", "release_ids", .wrongTarget (.nth 3) .work .release⟩]) := by
    decide +kernel
  obtain ⟨accepts, -⟩ := reachable.created_iff_accepts fresh book
  obtain ⟨-, -, reports⟩ := reachable.created_iff_accepts fresh patchy
  obtain ⟨⟨own, links, faults, -, tallies, tallies'⟩, -⟩ := reports _ refused
  refine ⟨accepts.1 ⟨_, ok⟩, own, links, ?_, tallies, tallies'⟩
  exact (CatalogError.validation.inj faults).symm

end Catalog

end Biblio
