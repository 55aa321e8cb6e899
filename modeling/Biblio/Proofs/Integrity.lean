import Biblio.Proofs.Change

/-! What holds between the rows of a catalog.

    An identity is in one of four shapes. What identities and edits refer to is there and of the
    right kind, and an edit without a base brings a revision. The changelog is numbered from one on,
    and its entries are those of the accepted editgroups. -/

namespace Biblio

/-- An identity that is not live points nowhere and was not deleted, a deleted one points nowhere,
    and any other has either a revision or a redirect. -/
structure Identity.IsShaped (x : Identity) : Prop where
  unaccepted : x.isLive = false → x.isDeleted = false ∧ x.pointer = (none, none)
  deleted : x.isDeleted = true → x.pointer = (none, none)
  pointed : x.isLive = true → x.isDeleted = false → (x.revision = none ↔ x.redirect.isSome = true)

theorem Identity.after_isShaped {x : Identity} (kept : x.isDeleted = false) (a : EditAction) :
    (x.after a).IsShaped := by
  cases a <;> constructor <;> simp [Identity.after, Identity.pointer, kept]

namespace Store

/-- Behind edits that take effect, an identity is as it was, or as the edit made it that fitted. -/
theorem TakesAll.under_cases {s : Store} {edits : List Edit} (keyed : s.Keyed)
    (distinct : (edits.map (·.ident)).Nodup) (takes : s.TakesAll edits) {x : Identity}
    (hx : x ∈ s.identities) :
    x.under edits = x ∧ (∀ e ∈ edits, e.ident ≠ x.id) ∨
      ∃ e ∈ edits, e.Fits x ∧ x.under edits = x.after e.action := by
  rcases Identity.under_cases edits x with h | ⟨e, he, hid, h⟩
  · exact .inl h
  · obtain ⟨y, hy, fits⟩ := ((takesAll_iff distinct).1 takes).1 e he
    obtain rfl := keyed.identity_unique hy hx (fits.ident.trans hid.symm)
    exact .inr ⟨e, he, fits, h⟩

theorem Arises.isShaped {s : Store} (h : s.Arises) : ∀ x ∈ s.identities, x.IsShaped := by
  induction h using Arises.induction with
  | empty => exact fun x hx => nomatch hx
  | change arises step ih =>
    cases step with
    | stageNew x e may =>
      obtain ⟨live, kept, pointer⟩ := may.unaccepted
      refine List.forall_mem_append.2 ⟨ih, List.forall_mem_singleton.2 ?_⟩
      exact ⟨fun _ => ⟨kept, pointer⟩, fun _ => pointer, fun h => by simp [live] at h⟩
    | accept group closedAt acceptedAt _ takes =>
      intro y hy
      obtain ⟨x, hx, rfl⟩ := List.mem_map.1 hy
      have distinct := arises.keyed.inApplicationOrder_nodup group
      rcases takes.under_cases arises.keyed distinct hx with ⟨h, -⟩ | ⟨e, -, fits, h⟩
      · rw [h]
        exact ih x hx
      · rw [h]
        exact Identity.after_isShaped fits.kept e.action
    | _ => exact ih

/-! ### References -/

/-- Rows stay, and keep what others rely on. -/
structure Keeps (s t : Store) : Prop where
  editgroups : ∀ g ∈ s.editgroups, ∃ g' ∈ t.editgroups, g'.id = g.id ∧ g'.extra = g.extra
  revisions : ∀ r ∈ s.revisions, r ∈ t.revisions
  identities : ∀ x ∈ s.identities, ∃ y ∈ t.identities, y.id = x.id ∧ y.kind = x.kind

theorem exists_mem_changeWhere {α : Type} {rows : List α} {test : α → Bool} {change : α → α}
    {x : α} (hx : x ∈ rows) :
    ∃ y ∈ changeWhere test change rows, y = if test x then change x else x :=
  ⟨_, List.mem_map_of_mem hx, rfl⟩

theorem keeps_written (s : Store) (edits : List Edit) : Keeps s (s.written edits) where
  editgroups g hg := ⟨g, hg, rfl, rfl⟩
  revisions _ hr := hr
  identities x hx := ⟨_, List.mem_map_of_mem hx, Identity.under_id _ x, Identity.under_kind _ x⟩

theorem keeps_closed (s : Store) (group : EditgroupId) (status : EditgroupStatus)
    (time : Instant) : Keeps s (s.closed group status time) where
  editgroups g hg := by
    obtain ⟨g', hg', rfl⟩ := exists_mem_changeWhere hg
    refine ⟨_, hg', ?_⟩
    split <;> exact ⟨rfl, rfl⟩
  revisions _ hr := hr
  identities x hx := ⟨x, hx, rfl, rfl⟩

theorem Change.keeps {s t : Store} {k : Deed} (step : Change s k t) : Keeps s t := by
  have editgroups : ∀ g ∈ s.editgroups, ∃ g' ∈ s.editgroups, g'.id = g.id ∧ g'.extra = g.extra :=
    fun g hg => ⟨g, hg, rfl, rfl⟩
  have identities : ∀ x ∈ s.identities, ∃ y ∈ s.identities, y.id = x.id ∧ y.kind = x.kind :=
    fun x hx => ⟨x, hx, rfl, rfl⟩
  cases step with
  | editgroup g _ _ _ _ =>
    exact ⟨fun h hh => ⟨h, List.mem_append_left _ hh, rfl, rfl⟩, fun r hr => hr, identities⟩
  | revision body id time _ _ =>
    exact ⟨editgroups, fun r hr => List.mem_append_left _ hr, identities⟩
  | stageNew x e _ =>
    exact ⟨editgroups, fun r hr => hr, fun y hy => ⟨y, List.mem_append_left _ hy, rfl, rfl⟩⟩
  | accept group closedAt acceptedAt _ _ =>
    exact ⟨(keeps_closed s group .accepted closedAt).editgroups, fun r hr => hr,
      (keeps_written s _).identities⟩
  | abandon group time _ => exact keeps_closed s group .abandoned time
  | _ => exact ⟨editgroups, fun r hr => hr, identities⟩

/-- There is an identity with this identifier, of this kind. -/
def HasIdentity (s : Store) (id : EntityId) (kind : EntityKind) : Prop :=
  ∃ x ∈ s.identities, x.id = id ∧ x.kind = kind

theorem Keeps.hasIdentity {s t : Store} (keeps : Keeps s t) {id : EntityId} {kind : EntityKind}
    (h : s.HasIdentity id kind) : t.HasIdentity id kind := by
  obtain ⟨x, hx, hid, hkind⟩ := h
  obtain ⟨y, hy, hyid, hykind⟩ := keeps.identities x hx
  exact ⟨y, hy, hyid.trans hid, hykind.trans hkind⟩

theorem Keeps.hasRevision {s t : Store} (keeps : Keeps s t) {rev : RevisionId} {kind : EntityKind}
    (h : s.HasRevision rev kind) : t.HasRevision rev kind := by
  obtain ⟨r, hr, hid, hkind⟩ := h
  exact ⟨r, keeps.revisions r hr, hid, hkind⟩

/-- What a pointer of an identity of this kind names is there and of that kind. -/
structure Backs (s : Store) (kind : EntityKind) (p : Pointer) : Prop where
  revision : ∀ rev, p.1 = some rev → s.HasRevision rev kind
  redirect : ∀ target, p.2 = some target → s.HasIdentity target kind

theorem Keeps.backs {s t : Store} (keeps : Keeps s t) {kind : EntityKind} {p : Pointer}
    (h : s.Backs kind p) : t.Backs kind p :=
  ⟨fun rev hr => keeps.hasRevision (h.revision rev hr),
    fun target ht => keeps.hasIdentity (h.redirect target ht)⟩

/-- What an edit refers to is there. -/
structure Grounds (s : Store) (e : Edit) : Prop where
  editgroup : ∃ g ∈ s.editgroups, g.id = e.editgroup ∧ g.IsLegible
  ident : s.HasIdentity e.ident e.kind
  result : s.Backs e.kind e.result
  previous : ∀ rev, e.previousRevision = some rev → ∃ kind, s.HasRevision rev kind
  previousRedirect : ∀ target, e.previousRedirect = some target → s.HasIdentity target e.kind

theorem Keeps.grounds {s t : Store} (keeps : Keeps s t) {e : Edit} (h : s.Grounds e) :
    t.Grounds e where
  editgroup := by
    obtain ⟨g, hg, hid, legible⟩ := h.editgroup
    obtain ⟨g', hg', hid', hextra⟩ := keeps.editgroups g hg
    exact ⟨g', hg', hid'.trans hid, fun text htext => legible text (hextra ▸ htext)⟩
  ident := keeps.hasIdentity h.ident
  result := keeps.backs h.result
  previous rev hr := (h.previous rev hr).imp fun _ => keeps.hasRevision
  previousRedirect target ht := keeps.hasIdentity (h.previousRedirect target ht)

/-- What edits and identities refer to is there. -/
structure Grounded (s : Store) : Prop where
  edits : ∀ e ∈ s.edits, s.Grounds e
  identities : ∀ x ∈ s.identities, s.Backs x.kind x.pointer

theorem backs_none (s : Store) (kind : EntityKind) : s.Backs kind (none, none) :=
  ⟨fun _ h => (nomatch h), fun _ h => (nomatch h)⟩

theorem HasWritable.legible {s : Store} {group : EditgroupId} (h : s.HasWritable group) :
    ∃ g ∈ s.editgroups, g.id = group ∧ g.IsLegible := by
  obtain ⟨g, hg, hid, -, legible⟩ := h
  exact ⟨g, hg, hid, legible⟩

/-- An edit of a new identity refers to what is there as soon as the identity is. -/
theorem MayStageNew.grounds {s : Store} {x : Identity} {e : Edit} (may : s.MayStageNew x e) :
    Grounds { s with identities := s.identities ++ [x], edits := s.edits ++ [e] } e where
  editgroup := may.group.legible
  ident := ⟨x, List.mem_append_right _ (List.mem_singleton_self x), may.ident, may.kind⟩
  result := by
    obtain ⟨rev, hact, hrev⟩ := may.action
    constructor
    · intro rev' hr
      obtain rfl : rev = rev' := EditAction.update.inj
        (hact.symm.trans (EditAction.revision?_eq_some.1 hr))
      exact hrev
    · intro target ht
      cases hact.symm.trans (EditAction.target?_eq_some.1 ht)
  previous rev hr := by
    have := congrArg Prod.fst may.base
    simp [Edit.base, hr] at this
  previousRedirect target ht := by
    have := congrArg Prod.snd may.base
    simp [Edit.base, ht] at this

/-- An edit refers to what is there if the edits before it do. -/
theorem MayStageOn.grounds {s : Store} {x : Identity} {e : Edit} (may : s.MayStageOn x e)
    (h : s.Grounded) : s.Grounds e where
  editgroup := may.group.legible
  ident := ⟨x, may.known, may.ident, may.kind⟩
  result := by
    constructor
    · exact fun rev hr => may.revision rev (EditAction.revision?_eq_some.1 hr)
    · intro target ht
      obtain ⟨y, hy, hid, ⟨-, f, hf, -, hident, -, hkind⟩ | ⟨-, hkind, -⟩⟩ :=
        may.target target (EditAction.target?_eq_some.1 ht)
      · exact hident ▸ hkind ▸ (h.edits f hf).ident
      · exact ⟨y, hy, hid, hkind⟩
  previous := may.previous
  previousRedirect target ht := by
    rw [may.redirect] at ht
    split at ht
    · exact may.kind ▸ (h.identities x may.known).redirect target ht
    · cases ht

/-- An edit of an identity that is live has a base. -/
theorem MayStageOn.base_ne {s : Store} {x : Identity} {e : Edit} (may : s.MayStageOn x e)
    (shaped : x.IsShaped) : e.base ≠ (none, none) := by
  intro hbase
  obtain ⟨hrev, hred⟩ := Prod.mk.inj hbase
  have noRevision : x.revision = none := by
    by_contra hne
    simpa [hrev] using may.based (Option.isSome_iff_ne_none.2 hne)
  -- without a base there would be neither a revision nor a redirect, but something is live
  have redirects := (shaped.pointed may.live may.kept).1 noRevision
  rw [may.redirect, hrev] at hred
  simp [show x.redirect = none from hred] at redirects

/-- An edit that names the current revision is based on where the identity points. -/
theorem MayStageOn.base_eq {s : Store} {x : Identity} {e : Edit} (may : s.MayStageOn x e)
    (shaped : x.IsShaped) (current : e.previousRevision = x.revision) : e.base = x.pointer := by
  have pointed := shaped.pointed may.live may.kept
  have redirect : e.previousRedirect = x.redirect := by
    rw [may.redirect, current]
    cases revision : x.revision with
    | none => rfl
    | some rev =>
      have : x.redirect = none := by simpa [revision] using pointed
      rw [this]
      rfl
  rw [Edit.base, current, redirect, Identity.pointer]

theorem Grounded.change {s t : Store} {k : Deed} (arises : s.Arises) (h : s.Grounded)
    (step : Change s k t) : t.Grounded := by
  have edits : ∀ e ∈ s.edits, t.Grounds e := fun e he => step.keeps.grounds (h.edits e he)
  have identities : ∀ x ∈ s.identities, t.Backs x.kind x.pointer :=
    fun x hx => step.keeps.backs (h.identities x hx)
  cases step with
  | stageNew x e may =>
    refine ⟨List.forall_mem_append.2 ⟨edits, List.forall_mem_singleton.2 may.grounds⟩,
      List.forall_mem_append.2 ⟨identities, List.forall_mem_singleton.2 ?_⟩⟩
    rw [may.unaccepted.2.2]
    exact backs_none _ _
  | stage x e may =>
    exact ⟨List.forall_mem_append.2 ⟨edits, List.forall_mem_singleton.2
      ((Change.stage x e may).keeps.grounds (may.grounds h))⟩, identities⟩
  | remove e _ _ => exact ⟨fun f hf => edits f (List.mem_of_mem_filter hf), identities⟩
  | accept group closedAt acceptedAt writable takes =>
    refine ⟨edits, fun y hy => ?_⟩
    obtain ⟨x, hx, rfl⟩ := List.mem_map.1 hy
    have distinct := arises.keyed.inApplicationOrder_nodup group
    rcases takes.under_cases arises.keyed distinct hx with ⟨heq, -⟩ | ⟨e, he, fits, heq⟩
    · rw [heq]
      exact identities x hx
    · have he : e ∈ s.edits := (mem_editsOf.1 (mem_inApplicationOrder.1 he)).1
      obtain ⟨y, hy, hid, hkind⟩ := (h.edits e he).ident
      obtain rfl := arises.keyed.identity_unique hy hx (hid.trans fits.ident.symm)
      rw [heq, Identity.after_pointer, Identity.after_kind, hkind]
      exact (edits e he).result
  | _ => exact ⟨edits, identities⟩

theorem Arises.grounded {s : Store} (h : s.Arises) : s.Grounded := by
  induction h using Arises.induction with
  | empty => exact ⟨fun _ h => (nomatch h), fun _ h => (nomatch h)⟩
  | change arises step ih => exact ih.change arises step

/-- An edit without a base brings a revision: it is the one that its identity was made for. -/
theorem Arises.update_of_no_base {s : Store} (h : s.Arises) :
    ∀ e ∈ s.edits, e.base = (none, none) → ∃ rev, e.action = .update rev := by
  induction h using Arises.induction with
  | empty => exact fun e he => nomatch he
  | change arises step ih =>
    cases step with
    | stageNew x e may =>
      refine List.forall_mem_append.2 ⟨ih, List.forall_mem_singleton.2 fun _ => ?_⟩
      obtain ⟨rev, hact, -⟩ := may.action
      exact ⟨rev, hact⟩
    | stage x e may =>
      refine List.forall_mem_append.2 ⟨ih, List.forall_mem_singleton.2 fun hbase => ?_⟩
      exact absurd hbase (may.base_ne (arises.isShaped x may.known))
    | remove e _ _ => exact fun f hf => ih f (List.mem_of_mem_filter hf)
    | _ => exact ih

end Store

end Biblio
