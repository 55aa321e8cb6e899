import Biblio.Proofs.Clearing

/-! The order in which edits are staged.

    Staging itself looks at the identities and changes none of them, so that the same edits may be
    staged in many orders, and lead to the same tables but for the order of the edits. What is made
    of that order is then up to acceptance. -/

namespace Biblio

namespace Catalog

/-- A run in which edits are staged in an editgroup, one after the other. -/
inductive Staging (src : Source) (group : EditgroupId) (c : Catalog) : List Edit → Catalog → Prop
  | start : Staging src group c [] c
  | stage {edits : List Edit} {d : Catalog} {e : Edit} (target : EditTarget)
    (previous : Option RevisionId) (action : EditAction) (h : Staging src group c edits d)
    (ok : (Operation.stageEdit group target previous action).answer src d = .ok e) :
    Staging src group c (edits ++ [e])
      ((Operation.stageEdit group target previous action).after src d)

end Catalog

namespace Store

/-- What edits that were staged in an editgroup one after the other made of these tables. -/
structure Staged (s t : Store) (group : EditgroupId) (edits : List Edit) : Prop where
  later : t.Arises
  editgroups : t.editgroups = s.editgroups
  revisions : t.revisions = s.revisions
  appended : t.edits = s.edits ++ edits
  ofGroup : ∀ e ∈ edits, e.editgroup = group
  old : ∀ x ∈ s.identities, x ∈ t.identities
  /-- A new identity was made for one of the edits, and is of the kind of its revision. -/
  new : ∀ x ∈ t.identities, x ∈ s.identities ∨ (∀ y ∈ s.identities, y.id ≠ x.id) ∧
    x.standing = (x.id, x.kind, (none, none), false, false) ∧
    ∃ e ∈ edits, e.ident = x.id ∧ ∃ rev, e.action = .update rev ∧ s.HasRevision rev x.kind

section Staged
variable {s t : Store} {group : EditgroupId} {edits : List Edit}

theorem Arises.staged (arises : s.Arises) (group : EditgroupId) : s.Staged s group [] where
  later := arises
  editgroups := rfl
  revisions := rfl
  appended := (List.append_nil _).symm
  ofGroup _ he := nomatch he
  old _ hx := hx
  new _ hx := .inl hx

theorem Staged.editsOf (h : s.Staged t group edits) :
    t.editsOf group = s.editsOf group ++ edits := by
  rw [Store.editsOf, Store.editsOf, h.appended, List.filter_append]
  congr 1
  rw [List.filter_eq_self]
  intro e he
  simpa using h.ofGroup e he

/-- One more edit is staged. -/
theorem Staged.stage {d d' : Catalog} (h : s.Staged d.toStore group edits) {target : EditTarget}
    {previous : Option RevisionId} {action : EditAction} {src : Source} {e : Edit}
    (ok : stageEdit group target previous action src d = (.ok e, d')) :
    s.Staged d'.toStore group (edits ++ [e]) := by
  have more : ∀ x ∈ d.identities, x ∈ s.identities ∨ (∀ y ∈ s.identities, y.id ≠ x.id) ∧
      x.standing = (x.id, x.kind, (none, none), false, false) ∧
      ∃ f ∈ edits ++ [e], f.ident = x.id ∧
        ∃ rev, f.action = .update rev ∧ s.HasRevision rev x.kind := by
    intro x hx
    rcases h.new x hx with old | ⟨unknown, standing, f, hf, rest⟩
    · exact .inl old
    · exact .inr ⟨unknown, standing, f, List.mem_append_left _ hf, rest⟩
  have appended : d.edits ++ [e] = s.edits ++ (edits ++ [e]) := by
    rw [h.appended, List.append_assoc]
  cases target with
  | new kind =>
    have later := (stageEdit_new_doesOnly group previous action kind).arises h.later ok
    obtain ⟨hgroup, -, -, x, -, may, rfl⟩ := stageEdit_new h.later.keyed ok
    refine ⟨later, h.editgroups, h.revisions, appended,
      List.forall_mem_append.2 ⟨h.ofGroup, List.forall_mem_singleton.2 hgroup⟩,
      fun y hy => List.mem_append_left _ (h.old y hy),
      List.forall_mem_append.2 ⟨more, List.forall_mem_singleton.2 (.inr ⟨?_, ?_, ?_⟩)⟩⟩
    · exact fun y hy => may.unknown y (h.old y hy)
    · obtain ⟨live, kept, nowhere⟩ := may.unaccepted
      rw [Identity.standing, live, kept, nowhere]
    · obtain ⟨rev, action, r, hr, hid, hkind⟩ := may.action
      rw [h.revisions] at hr
      exact ⟨e, List.mem_append_right _ (List.mem_singleton_self e), may.ident.symm, rev, action,
        r, hr, hid, hkind.trans may.kind.symm⟩
  | existing id =>
    have later := (stageEdit_existing_doesOnly group previous action id).arises h.later ok
    obtain ⟨hgroup, -, -, x, -, -, rfl⟩ := stageEdit_existing h.later.keyed ok
    exact ⟨later, h.editgroups, h.revisions, appended,
      List.forall_mem_append.2 ⟨h.ofGroup, List.forall_mem_singleton.2 hgroup⟩, h.old, more⟩

end Staged

/-! ### In another order -/

/-- The tables are alike but for times and for the order of the edits of an editgroup. -/
structure AlikeUpToOrder (s t : Store) (group : EditgroupId) : Prop where
  writable : s.HasWritable group ↔ t.HasWritable group
  revisions : ∀ rev kind, s.HasRevision rev kind ↔ t.HasRevision rev kind
  identities : s.SameStanding t
  edits : SameChanges (s.editsOf group) (t.editsOf group)

section Alike
variable {s s' t t' : Store} {group : EditgroupId} {edits edits' : List Edit}

theorem AlikeUpToOrder.refl (s : Store) (group : EditgroupId) : s.AlikeUpToOrder s group :=
  ⟨.rfl, fun _ _ => .rfl, fun _ => rfl, .refl _⟩

theorem AlikeUpToOrder.symm (h : s.AlikeUpToOrder t group) : t.AlikeUpToOrder s group :=
  ⟨h.writable.symm, fun rev kind => (h.revisions rev kind).symm, h.identities.symm, h.edits.symm⟩

/-- A new identity is there in each run in which an edit of it was staged, and is the same. -/
theorem Staged.exists_standing (h : s.Staged t group edits) (h' : s'.Staged t' group edits')
    (keyed : s.Keyed) (keyed' : s'.Keyed) (alike : s.AlikeUpToOrder s' group)
    (same : SameChanges edits edits') :
    ∀ x ∈ t.identities, ∃ y ∈ t'.identities, y.standing = x.standing := by
  intro x hx
  rcases h.new x hx with old | ⟨unknown, standing, e, he, hid, rev, hact, brought⟩
  · obtain ⟨y, hy, standing⟩ :=
      alike.identities.exists_eq (keyed.identity?_eq_some.2 ⟨old, rfl⟩)
    exact ⟨y, h'.old y (keyed'.identity?_eq_some.1 hy).1, standing⟩
  obtain ⟨f, hf, ident, -, action⟩ := same.exists_mem he
  have mem : ∀ g ∈ edits', g ∈ t'.editsOf group := fun g hg =>
    h'.editsOf ▸ List.mem_append_right _ hg
  obtain ⟨y, hy, hyid, -⟩ := (h'.later.grounded.edits f (mem_editsOf.1 (mem f hf)).1).ident
  rcases h'.new y hy with old | ⟨-, standing', g, hg, hgid, rev', hact', brought'⟩
  · obtain ⟨z, hz, alike⟩ :=
      alike.identities.symm.exists_eq (keyed'.identity?_eq_some.2 ⟨old, rfl⟩)
    have zid : z.id = y.id := (Identity.standing_eq_iff.1 alike).1
    exact absurd (zid.trans (hyid.trans (ident.trans hid)))
      (unknown z (keyed.identity?_eq_some.1 hz).1)
  -- the edit that it was made for brings the same revision, whose kind it has
  obtain rfl := List.inj_on_of_nodup_map (h'.later.keyed.editsOf_nodup group) (mem g hg)
    (mem f hf) (hgid.trans hyid)
  obtain rfl : rev' = rev := EditAction.update.inj (hact'.symm.trans (action.trans hact))
  obtain ⟨r, hr, hrid, hkind⟩ := (alike.revisions rev' x.kind).1 brought
  obtain ⟨r', hr', hrid', hkind'⟩ := brought'
  obtain rfl := List.inj_on_of_nodup_map keyed'.revisions hr hr' (hrid.trans hrid'.symm)
  refine ⟨y, hy, ?_⟩
  rw [standing, standing', hyid.trans (ident.trans hid), ← hkind, ← hkind']

/-- The same edits are staged in two orders. -/
theorem Staged.alike (h : s.Staged t group edits) (h' : s'.Staged t' group edits')
    (keyed : s.Keyed) (keyed' : s'.Keyed) (alike : s.AlikeUpToOrder s' group)
    (same : SameChanges edits edits') : t.AlikeUpToOrder t' group where
  writable := by
    rw [HasWritable, HasWritable, h.editgroups, h'.editgroups]
    exact alike.writable
  revisions rev kind := by
    rw [HasRevision, HasRevision, h.revisions, h'.revisions]
    exact alike.revisions rev kind
  identities := h.later.keyed.sameStanding h'.later.keyed
    (h.exists_standing h' keyed keyed' alike same)
    (h'.exists_standing h keyed' keyed alike.symm same.symm)
  edits := by
    rw [h.editsOf, h'.editsOf]
    exact alike.edits.append same

theorem AlikeUpToOrder.suits (alike : s.AlikeUpToOrder t group) (keyed : s.Keyed)
    (suits : s.Suits (s.editsOf group)) : t.Suits (t.editsOf group) :=
  suits.of_same alike.identities alike.edits (keyed.editsOf_nodup group)

end Alike

/-! ### Acceptance -/

section Accept
variable {c : Catalog}

/-- An editgroup is accepted if it can be worked on, its edits suit the tables, and they are in a
    clearing order. -/
theorem Arises.accept_isOk_iff (arises : c.Arises) (src : Source) (group : EditgroupId) :
    (∃ entry, (Operation.accept group).answer src c = .ok entry) ↔
      c.HasWritable group ∧ c.Suits (c.editsOf group) ∧ InClearingOrder (c.editsOf group) := by
  have distinct := arises.keyed.editsOf_nodup group
  rw [← arises.admits_iff distinct, ← arises.keyed.takesAll_iff_admits distinct]
  rcases arises.answer_accept src group with ⟨ok, -, writable, takes⟩ | ⟨err, error, -, why⟩
  · exact iff_of_true ⟨_, ok⟩ ⟨writable, takes⟩
  · refine iff_of_false ?_ ?_
    · rintro ⟨entry, ok⟩
      cases error.symm.trans ok
    · rintro ⟨writable, takes⟩
      rcases why with closed | ⟨-, done, e, rest, stops, -⟩
      · exact closed writable
      · exact stops.not_takesAll arises.keyed takes

theorem Arises.accepted_identity? (arises : c.Arises) {src : Source} {group : EditgroupId}
    (ok : ∃ entry, (Operation.accept group).answer src c = .ok entry) (id : EntityId) :
    ((Operation.accept group).after src c).identity? id =
      (c.written (c.editsOf group)).identity? id := by
  rcases arises.answer_accept src group with ⟨-, after, -⟩ | ⟨err, error, -⟩
  · rw [after, identity?_written]
    exact arises.keyed.accepted_identity? id
  · obtain ⟨entry, ok⟩ := ok
    cases error.symm.trans ok

end Accept

end Store

namespace Catalog

theorem Staging.staged {src : Source} {group : EditgroupId} {c d : Catalog} {edits : List Edit}
    (h : Staging src group c edits d) (arises : c.Arises) : c.Staged d.toStore group edits := by
  induction h with
  | start => exact arises.staged group
  | stage target previous action _ ok ih => exact ih.stage (Write.run_eq_ok.1 (Prod.ext ok rfl))

/-- What is staged next can be told from what it asks for. -/
theorem Staging.exists_stage {src : Source} {group : EditgroupId} {c d : Catalog}
    {changes : List (EntityId × Pointer × EditAction)} {change : EntityId × Pointer × EditAction}
    (h : ∃ edits, Staging src group c edits d ∧ edits.map (·.change) = changes)
    {target : EditTarget} {previous : Option RevisionId} {action : EditAction}
    (ok : ((Operation.stageEdit group target previous action).answer src d).map (·.change) =
      .ok change) :
    ∃ edits, Staging src group c edits
        ((Operation.stageEdit group target previous action).after src d) ∧
      edits.map (·.change) = changes ++ [change] := by
  obtain ⟨edits, staging, rfl⟩ := h
  cases answer : (Operation.stageEdit group target previous action).answer src d with
  | error err => rw [answer] at ok; cases ok
  | ok e =>
    rw [answer] at ok
    obtain rfl := Except.ok.inj ok
    exact ⟨edits ++ [e], staging.stage target previous action answer, List.map_append⟩

/-- The order in which edits are staged decides acceptance only where a redirect clears another
    one. Take two runs that differ only in the order of the edits of an editgroup, and let the same
    edits be staged in it in two orders. If none of its redirects clears another one, then it is
    accepted in both runs or in none. If there are such redirects and it is accepted in one run,
    then it is in the other one just if they are in a clearing order there, too. If it is accepted
    in both runs, the identities are the same, but that new ones may have been created at other
    times. -/
theorem Reachable.staging_order {src₁ src₂ : Source} {c₁ c₂ d₁ d₂ : Catalog}
    (h₁ : Reachable src₁ c₁) (h₂ : Reachable src₂ c₂) {group : EditgroupId}
    (alike : Store.AlikeUpToOrder c₁.toStore c₂.toStore group) {edits₁ edits₂ : List Edit}
    (first : Staging src₁ group c₁ edits₁ d₁) (second : Staging src₂ group c₂ edits₂ d₂)
    (same : SameChanges edits₁ edits₂) :
    ((∀ e ∈ d₁.editsOf group, ∀ f ∈ d₁.editsOf group, ¬e.Clears f) →
        ((∃ entry, (Operation.accept group).answer src₁ d₁ = .ok entry) ↔
          ∃ entry, (Operation.accept group).answer src₂ d₂ = .ok entry)) ∧
      ((∃ entry, (Operation.accept group).answer src₁ d₁ = .ok entry) →
        ((∃ entry, (Operation.accept group).answer src₂ d₂ = .ok entry) ↔
          InClearingOrder (d₂.editsOf group))) ∧
      ((∃ entry, (Operation.accept group).answer src₁ d₁ = .ok entry) →
        (∃ entry, (Operation.accept group).answer src₂ d₂ = .ok entry) →
        Store.SameStanding ((Operation.accept group).after src₁ d₁).toStore
            ((Operation.accept group).after src₂ d₂).toStore ∧
          ∀ x ∈ c₁.identities, x ∈ c₂.identities →
            ((Operation.accept group).after src₁ d₁).identity? x.id =
              ((Operation.accept group).after src₂ d₂).identity? x.id) := by
  have staged := first.staged h₁.arises
  have staged' := second.staged h₂.arises
  have keyed := staged.later.keyed
  have keyed' := staged'.later.keyed
  have alike := staged.alike staged' h₁.arises.keyed h₂.arises.keyed alike same
  have suits : d₁.Suits (d₁.editsOf group) ↔ d₂.Suits (d₂.editsOf group) :=
    ⟨alike.suits keyed, alike.symm.suits keyed'⟩
  refine ⟨fun none => ?_, fun ok => ?_, fun ok ok' => ⟨fun id => ?_, fun x hx hx' => ?_⟩⟩
  · rw [staged.later.accept_isOk_iff, staged'.later.accept_isOk_iff, alike.writable, suits,
      eq_true (alike.edits.inClearingOrder none),
      eq_true ((SameChanges.refl _).inClearingOrder none)]
  · rw [staged.later.accept_isOk_iff, alike.writable, suits] at ok
    rw [staged'.later.accept_isOk_iff]
    exact ⟨fun h => h.2.2, fun clearing => ⟨ok.1, ok.2.1, clearing⟩⟩
  · rw [staged.later.accepted_identity? ok, staged'.later.accepted_identity? ok']
    exact alike.identities.written alike.edits (keyed.editsOf_nodup group) id
  · rw [staged.later.accepted_identity? ok, staged'.later.accepted_identity? ok',
      Store.identity?_written, Store.identity?_written,
      keyed.identity?_eq_some.2 ⟨staged.old x hx, rfl⟩,
      keyed'.identity?_eq_some.2 ⟨staged'.old x hx', rfl⟩, Option.map_some, Option.map_some,
      Identity.under_of_sameChanges alike.edits (keyed.editsOf_nodup group)]

/-- Three works, of which the first one is merged into the second one, and an open editgroup. -/
def rerouting : Catalog := Catalog.empty.play .counting [
  ⟨.createEditor "someone"⟩, ⟨.autoaccept (.nth 0) (.work {})⟩, ⟨.autoaccept (.nth 0) (.work {})⟩,
  ⟨.autoaccept (.nth 0) (.work {})⟩, ⟨.createEditgroup (.nth 0) none .empty⟩,
  ⟨.redirectEntity (.nth 13) (.nth 3) (.nth 7)⟩, ⟨.accept (.nth 13)⟩,
  ⟨.createEditgroup (.nth 0) none .empty⟩]

/-- The first work is merged into the third one instead. -/
def rerouteFirst : Operation Edit :=
  .stageEdit (.nth 15) (.existing (.nth 3)) none (.redirect (.nth 11))

/-- The second work is merged into the third one. -/
def mergeSecond : Operation Edit :=
  .stageEdit (.nth 15) (.existing (.nth 7)) (some (.nth 6)) (.redirect (.nth 11))

/-- The third work gets the revision of the first one. -/
def reviseThird : Operation Edit :=
  .stageEdit (.nth 15) (.existing (.nth 11)) (some (.nth 10)) (.update (.nth 2))

/-- The second work is merged when nothing redirects to it any more. -/
def clearedFirst : Catalog := mergeSecond.after .counting (rerouteFirst.after .counting rerouting)

/-- The second work is merged while the first one redirects to it. -/
def clearedLast : Catalog := rerouteFirst.after .counting (mergeSecond.after .counting rerouting)

/-- Besides, the third work is revised, at the end or at the beginning. -/
def revisedLast : Catalog := reviseThird.after .counting clearedFirst

def revisedFirst : Catalog :=
  mergeSecond.after .counting (rerouteFirst.after .counting (reviseThird.after .counting rerouting))

theorem revised_staging_order :
    (∃ entry, (Operation.accept (.nth 15)).answer .counting revisedLast = .ok entry) ∧
      (∃ entry, (Operation.accept (.nth 15)).answer .counting revisedFirst = .ok entry) ∧
      Store.SameStanding ((Operation.accept (.nth 15)).after .counting revisedLast).toStore
        ((Operation.accept (.nth 15)).after .counting revisedFirst).toStore := by
  have reachable : Reachable .counting rerouting := leads_play ..
  obtain ⟨edits, first, changes⟩ : ∃ edits, Staging .counting (.nth 15) rerouting edits
      revisedLast ∧ edits.map (·.change) = [
        (.nth 3, (none, some (.nth 7)), .redirect (.nth 11)),
        (.nth 7, (some (.nth 6), none), .redirect (.nth 11)),
        (.nth 11, (some (.nth 10), none), .update (.nth 2))] := by
    refine Staging.exists_stage (Staging.exists_stage (Staging.exists_stage
      ⟨[], .start, rfl⟩ ?_) ?_) ?_
    all_goals decide +kernel
  obtain ⟨edits', second, changes'⟩ : ∃ edits, Staging .counting (.nth 15) rerouting edits
      revisedFirst ∧ edits.map (·.change) = [
        (.nth 11, (some (.nth 10), none), .update (.nth 2)),
        (.nth 3, (none, some (.nth 7)), .redirect (.nth 11)),
        (.nth 7, (some (.nth 6), none), .redirect (.nth 11))] := by
    refine Staging.exists_stage (Staging.exists_stage (Staging.exists_stage
      ⟨[], .start, rfl⟩ ?_) ?_) ?_
    all_goals decide +kernel
  have same : SameChanges edits edits' := by
    rw [SameChanges, changes, changes']
    decide +kernel
  obtain ⟨-, order, identities⟩ := Reachable.staging_order reachable reachable
    (Store.AlikeUpToOrder.refl _ _) first second same
  have accepts : ((Operation.accept (.nth 15)).answer .counting revisedLast).isOk = true := by
    decide +kernel
  cases answer : (Operation.accept (.nth 15)).answer .counting revisedLast with
  | error err => rw [answer] at accepts; cases accepts
  | ok entry =>
    have ok : ∃ entry, (Operation.accept (.nth 15)).answer .counting revisedLast = .ok entry :=
      ⟨entry, answer⟩
    have ok' := (order ok).2 (by decide +kernel)
    exact ⟨⟨entry, rfl⟩, ok', (identities ok ok').1⟩

/-- The order of staging can decide acceptance: of two redirects that are staged in either order,
    the second one is refused if it takes its identity away from that of the first one. -/
theorem staging_order_can_decide :
    ¬∀ (src : Source) (c d₁ d₂ : Catalog) (group : EditgroupId) (edits₁ edits₂ : List Edit),
      Reachable src c → Staging src group c edits₁ d₁ → Staging src group c edits₂ d₂ →
      SameChanges edits₁ edits₂ →
      ((∃ entry, (Operation.accept group).answer src d₁ = .ok entry) ↔
          ∃ entry, (Operation.accept group).answer src d₂ = .ok entry) ∧
        ((∃ entry, (Operation.accept group).answer src d₁ = .ok entry) →
          Store.SameStanding ((Operation.accept group).after src d₁).toStore
            ((Operation.accept group).after src d₂).toStore) := by
  intro claim
  obtain ⟨edits, first, changes⟩ : ∃ edits, Staging .counting (.nth 15) rerouting edits
      clearedFirst ∧ edits.map (·.change) = [
        (.nth 3, (none, some (.nth 7)), .redirect (.nth 11)),
        (.nth 7, (some (.nth 6), none), .redirect (.nth 11))] := by
    refine Staging.exists_stage (Staging.exists_stage ⟨[], .start, rfl⟩ ?_) ?_
    all_goals decide +kernel
  obtain ⟨edits', second, changes'⟩ : ∃ edits, Staging .counting (.nth 15) rerouting edits
      clearedLast ∧ edits.map (·.change) = [
        (.nth 7, (some (.nth 6), none), .redirect (.nth 11)),
        (.nth 3, (none, some (.nth 7)), .redirect (.nth 11))] := by
    refine Staging.exists_stage (Staging.exists_stage ⟨[], .start, rfl⟩ ?_) ?_
    all_goals decide +kernel
  have same : SameChanges edits edits' := by
    rw [SameChanges, changes, changes']
    exact .swap ..
  obtain ⟨same, -⟩ := claim .counting rerouting clearedFirst clearedLast (.nth 15) edits edits'
    (leads_play ..) first second same
  have accepts : ((Operation.accept (.nth 15)).answer .counting clearedFirst).isOk = true := by
    decide +kernel
  have refused : (Operation.accept (.nth 15)).answer .counting clearedLast =
      .error (.redirectChain (.isTarget (.nth 7))) := by
    decide +kernel
  cases answer : (Operation.accept (.nth 15)).answer .counting clearedFirst with
  | error err => rw [answer] at accepts; cases accepts
  | ok entry =>
    obtain ⟨entry, ok⟩ := same.1 ⟨entry, answer⟩
    cases refused.symm.trans ok

end Catalog

end Biblio
