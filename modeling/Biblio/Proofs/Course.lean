import Biblio.Proofs.Changelog
import Biblio.Proofs.Results

/-! The course of an acceptance.

    The edits of an open editgroup are applied one after the other. Either all of them take effect,
    and then nothing else can fail; or there is a first one that does not, and the failure says
    that its base is stale or, of a redirect only, that it is not allowed. -/

namespace Biblio

/-- One write after another, whatever comes of the first. -/
theorem Write.bind_apply {α β : Type} (w : Write α) (f : α → Write β) (src : Source) (c : Catalog) :
    (w >>= f) src c = match w src c with
      | (.ok a, d) => f a src d
      | (.error e, d) => (.error e, d) := by
  change (w src c >>= fun p : Except CatalogError α × Catalog =>
    ExceptT.bindCont (fun a => f a src) p.1 p.2 : Id _) = _
  rcases w src c with ⟨_ | _, _⟩ <;> rfl

/-- A redirect is not allowed. -/
def CatalogError.IsRedirectFault (err : CatalogError) : Prop :=
  (∃ what, err = .gone what) ∨ ∃ fault, err = .redirectChain fault

/-- A failure of an edit that does not take effect: its base is stale, or its redirect is not
    allowed. -/
def Edit.RefusedBy (e : Edit) (err : CatalogError) : Prop :=
  (∃ how, err = .conflict e.ident how) ∨ e.action.isRedirect = true ∧ err.IsRedirectFault

/-- The catalog behind the acceptance of an editgroup. -/
def Catalog.accepting (c : Catalog) (src : Source) (group : EditgroupId) : Catalog :=
  { c.withStore (c.toStore.accepted group (src.time c.ticks) (src.time (c.ticks + 1))) with
    ticks := c.ticks + 2 }

namespace Store

theorem found_eq_ok {α : Type} {what : Missing} {o : Option α} {a : α} :
    found what o = .ok a ↔ o = some a := by
  cases o <;> simp [found]

section Checks
variable {s : Store}

theorem Keyed.getIdentity_eq_ok (keyed : s.Keyed) {id : EntityId} {x : Identity} :
    s.getIdentity id = .ok x ↔ x ∈ s.identities ∧ x.id = id :=
  found_eq_ok.trans keyed.identity?_eq_some

theorem Keyed.getEditor_eq_ok (keyed : s.Keyed) {id : EditorId} {e : Editor} :
    s.getEditor id = .ok e ↔ e ∈ s.editors ∧ e.id = id :=
  found_eq_ok.trans (find?_eq_some_iff keyed.editors)

theorem checkNoInbound_eq {id : EntityId} [Decidable (∀ x ∈ s.identities, x.redirect = some id →
    ¬(x.isLive = true ∧ x.isDeleted = false))] :
    s.checkNoInbound id =
      if ∀ x ∈ s.identities, x.redirect = some id → ¬(x.isLive = true ∧ x.isDeleted = false)
      then .ok () else .error (.redirectChain (.isTarget id)) := by
  have : (s.inboundRedirects id).isEmpty = true ↔
      ∀ x ∈ s.identities, x.redirect = some id → ¬(x.isLive = true ∧ x.isDeleted = false) := by
    simp [inboundRedirects]
  simp only [checkNoInbound, this]

theorem checkRedirectTarget_eq (source : EntityId) {target : EntityId} {x : Identity}
    (get : s.getIdentity target = .ok x) :
    s.checkRedirectTarget source target =
      if source = target then .error (.redirectChain (.toItself source))
      else if x.isDeleted then .error (.gone (.redirectTarget target))
      else if !x.isLive then .error (.redirectChain (.targetNotLive target))
      else match x.redirect with
        | some next => .error (.redirectChain (.targetRedirects target next))
        | none => .ok x := by
  unfold checkRedirectTarget
  rw [get]
  by_cases h : source = target
  · simp [h]
  · simp only [h, if_false, Except.ok_bind]
    rfl

/-- A target that is there is either good for a redirect, or the failure says why not. -/
theorem checkRedirectTarget_cases (source : EntityId) {target : EntityId} {x : Identity}
    (get : s.getIdentity target = .ok x) :
    s.checkRedirectTarget source target = .ok x ∧ target ≠ source ∧ x.isLive = true ∧
        x.isDeleted = false ∧ x.redirect = none ∨
      ∃ err, s.checkRedirectTarget source target = .error err ∧ err.IsRedirectFault ∧
        ¬(target ≠ source ∧ x.isLive = true ∧ x.isDeleted = false ∧ x.redirect = none) := by
  rw [checkRedirectTarget_eq source get]
  by_cases apart : source = target
  · exact .inr ⟨_, if_pos apart, .inr ⟨_, rfl⟩, fun h => h.1 apart.symm⟩
  rw [if_neg apart]
  by_cases deleted : x.isDeleted = true
  · exact .inr ⟨_, if_pos deleted, .inl ⟨_, rfl⟩, fun h => by simp [deleted] at h⟩
  rw [if_neg deleted]
  by_cases live : x.isLive = true
  swap
  · exact .inr ⟨_, if_pos (by simpa using live), .inr ⟨_, rfl⟩, fun h => live h.2.1⟩
  rw [if_neg (by simpa using live)]
  cases redirect : x.redirect with
  | some next => exact .inr ⟨_, rfl, .inr ⟨_, rfl⟩, fun h => by simp at h⟩
  | none => exact .inl ⟨rfl, fun h => apart h.symm, live, by simpa using deleted, rfl⟩

/-- What a redirect needs besides a fresh base is there, or the failure says what is wrong. -/
theorem checkRedirect_cases (keyed : s.Keyed) {e : Edit} (grounds : s.Grounds e) :
    s.checkRedirect e = .ok () ∧
        (∀ target, e.action = .redirect target → s.MayRedirect e.ident target) ∨
      ∃ err, s.checkRedirect e = .error err ∧ e.action.isRedirect = true ∧ err.IsRedirectFault ∧
        ¬∀ target, e.action = .redirect target → s.MayRedirect e.ident target := by
  cases hact : e.action with
  | redirect target =>
    obtain ⟨x, hx, hid, -⟩ := grounds.result.redirect target (EditAction.target?_eq_some.2 hact)
    have only : ∀ y ∈ s.identities, y.id = target → y = x :=
      fun y hy h => keyed.identity_unique hy hx (h.trans hid.symm)
    have get := keyed.getIdentity_eq_ok.2 ⟨hx, hid⟩
    rcases checkRedirectTarget_cases e.ident get with
      ⟨ok, apart, live, kept, redirect⟩ | ⟨err, error, fault, not⟩
    · classical
      by_cases untargeted : ∀ x ∈ s.identities, x.redirect = some e.ident →
          ¬(x.isLive = true ∧ x.isDeleted = false)
      · refine .inl ⟨?_, ?_⟩
        · simp only [checkRedirect, hact, ok, Except.ok_bind, checkNoInbound_eq, if_pos untargeted]
        · rintro _ ⟨⟩
          exact ⟨apart, ⟨x, hx, hid, live, kept, redirect⟩, untargeted⟩
      · refine .inr ⟨.redirectChain (.isTarget e.ident), ?_, rfl, .inr ⟨_, rfl⟩,
          fun h => untargeted (h target rfl).untargeted⟩
        simp only [checkRedirect, hact, ok, Except.ok_bind, checkNoInbound_eq, if_neg untargeted]
    · refine .inr ⟨err, by simp [checkRedirect, hact, error], rfl, fault, fun h => not ?_⟩
      obtain ⟨apart, ⟨y, hy, hyid, rest⟩, -⟩ := h target rfl
      exact ⟨apart, only y hy hyid ▸ rest⟩
  | _ =>
    refine .inl ⟨by simp [checkRedirect, hact], fun target h => ?_⟩
    cases h

end Checks

/-! ### One edit -/

/-- The failure with which an edit does not take effect as the tables are. -/
def refusal? (s : Store) (e : Edit) : Option CatalogError :=
  match s.checkRedirect e with
  | .error err => some err
  | .ok () =>
    match s.getIdentity e.ident with
    | .error err => some err
    | .ok x => (x.staleness? e.previousRevision e.previousRedirect).map (.conflict e.ident)

section Apply
variable {c : Catalog} {e : Edit}

/-- Writing an edit to its identity is putting the changed identity in its place. -/
theorem written_singleton (keyed : c.Keyed) {x : Identity} (hx : x ∈ c.identities)
    (hid : x.id = e.ident) :
    c.written [e] = { c.toStore with
      identities := changeWhere (·.id == x.id) (fun _ => x.after e.action) c.identities } := by
  have : c.identities.map (·.under [e]) =
      changeWhere (·.id == x.id) (fun _ => x.after e.action) c.identities := by
    refine List.map_congr_left fun y hy => ?_
    by_cases h : y.id = x.id
    · obtain rfl := keyed.identity_unique hy hx h
      simp [Identity.under, hid]
    · rw [Identity.under_of_forall_ne (by simpa [← hid] using Ne.symm h)]
      simp [h]
  rw [written, this]

theorem holds_iff {α β : Type} {find? : α → Option β} {a : Option α} :
    holds find? a = true ↔ ∀ x, a = some x → (find? x).isSome = true := by
  cases a <;> simp [holds]

theorem staleness?_eq_none {x : Identity} {p : Pointer} :
    x.staleness? p.1 p.2 = none ↔ x.isDeleted = false ∧ x.pointer = p := by
  obtain ⟨revision, redirect⟩ := p
  simp only [Identity.staleness?, Identity.pointer, Prod.mk.injEq]
  by_cases deleted : x.isDeleted = true
  · simp [deleted]
  by_cases red : x.redirect = redirect <;> by_cases rev : x.revision = revision <;>
    simp [deleted, red, rev]

theorem HasRevision.isSome {s : Store} {rev : RevisionId} {kind : EntityKind}
    (h : s.HasRevision rev kind) : (s.revisionRow? rev).isSome = true := by
  obtain ⟨r, hr, hid, -⟩ := h
  exact find?_isSome_iff.2 ⟨r, hr, hid⟩

theorem HasIdentity.isSome {s : Store} {id : EntityId} {kind : EntityKind}
    (h : s.HasIdentity id kind) : (s.identity? id).isSome = true := by
  obtain ⟨x, hx, hid, -⟩ := h
  exact find?_isSome_iff.2 ⟨x, hx, hid⟩

/-- What an edit brings is there, so that the store does not refuse the changed identity. -/
theorem Grounds.replaceIdentity_eq (grounds : c.Grounds e) (keyed : c.Keyed) {x : Identity}
    (hx : x ∈ c.identities) (hid : x.id = e.ident) (src : Source) :
    replaceIdentity (x.after e.action) src c = (.ok (), c.withStore (c.written [e])) := by
  have revision : holds c.revisionRow? (x.after e.action).revision = true := by
    refine holds_iff.2 fun rev h => ?_
    exact (grounds.result.revision rev (by simpa [Edit.result] using h)).isSome
  have redirect : holds c.identity? (x.after e.action).redirect = true := by
    refine holds_iff.2 fun target h => ?_
    exact (grounds.result.redirect target (by simpa [Edit.result] using h)).isSome
  have demanded : demand (fun s => holds s.revisionRow? (x.after e.action).revision &&
      holds s.identity? (x.after e.action).redirect) .danglingReference src c = (.ok (), c) :=
    demand_eq_ok.2 ⟨by rw [revision, redirect]; rfl, rfl⟩
  have one : demandOnePointer (x.after e.action) src c = (.ok (), c) :=
    demand_eq_ok.2 ⟨by cases e.action <;> rfl, rfl⟩
  rw [written_singleton keyed hx hid]
  simp only [replaceIdentity, Write.bind_apply, one, demanded, Identity.after_id]
  rfl

/-- An edit takes effect, or nothing happens and the failure says why. -/
theorem applyEdit_eq (src : Source) (keyed : c.Keyed) (grounds : c.Grounds e) :
    applyEdit e src c = match c.refusal? e with
      | none => (.ok (), c.withStore (c.written [e]))
      | some err => (.error err, c) := by
  obtain ⟨x, hx, hid, -⟩ := grounds.ident
  have get := keyed.getIdentity_eq_ok.2 ⟨hx, hid⟩
  have checked : look (checkRedirect e) src c = (c.checkRedirect e, c) := rfl
  have looked : look (getIdentity e.ident) src c = (.ok x, c) := congrArg (·, c) get
  rw [applyEdit, Write.bind_apply, checked]
  cases hcheck : c.checkRedirect e with
  | error err => simp only [refusal?, hcheck]
  | ok u =>
    simp only [refusal?, hcheck, get, moveIdentity, Write.bind_apply (look _), looked]
    cases x.staleness? e.previousRevision e.previousRedirect with
    | some how => rfl
    | none => exact grounds.replaceIdentity_eq keyed hx hid src

/-- An edit is refused unless it can take effect. -/
theorem refusal?_cases {s : Store} (keyed : s.Keyed) (grounds : s.Grounds e) :
    s.refusal? e = none ∧ s.Takes e ∨
      ∃ err, s.refusal? e = some err ∧ e.RefusedBy err ∧ ¬s.Takes e := by
  obtain ⟨x, hx, hid, -⟩ := grounds.ident
  have get := keyed.getIdentity_eq_ok.2 ⟨hx, hid⟩
  rcases checkRedirect_cases keyed grounds with
    ⟨ok, redirects⟩ | ⟨err, error, isRedirect, fault, not⟩
  swap
  · refine .inr ⟨err, ?_, .inr ⟨isRedirect, fault⟩, fun h => not h.redirects⟩
    simp only [refusal?, error]
  cases stale : x.staleness? e.previousRevision e.previousRedirect with
  | none =>
    obtain ⟨kept, base⟩ := (staleness?_eq_none (p := e.base)).1 stale
    refine .inl ⟨?_, ⟨x, hx, hid, kept, base⟩, redirects⟩
    simp only [refusal?, ok, get, stale, Option.map_none]
  | some how =>
    refine .inr ⟨.conflict e.ident how, ?_, .inl ⟨how, rfl⟩, ?_⟩
    · simp only [refusal?, ok, get, stale, Option.map_some]
    · rintro ⟨⟨y, hy, fits⟩, -⟩
      obtain rfl := keyed.identity_unique hy hx (fits.ident.trans hid.symm)
      have fresh := (staleness?_eq_none (p := e.base)).2 ⟨fits.kept, fits.base⟩
      rw [show y.staleness? e.base.1 e.base.2 = some how from stale] at fresh
      cases fresh

end Apply

/-! ### All edits of an editgroup -/

/-- The failure of the first one of the edits that does not take effect behind those before it. -/
def firstRefusal? (s : Store) : List Edit → Option CatalogError
  | [] => none
  | e :: es => (s.refusal? e).or ((s.written [e]).firstRefusal? es)

/-- What the edits behind the first one refer to is still there when that one is written. -/
theorem grounds_tail {s : Store} {e : Edit} {es : List Edit}
    (grounds : ∀ f ∈ e :: es, s.Grounds f) : ∀ f ∈ es, (s.written [e]).Grounds f := fun f hf =>
  (keeps_written _ _).grounds (grounds f (List.mem_cons_of_mem _ hf))

/-- Edits take effect one after the other up to the first one that does not. -/
theorem forM_applyEdit_eq {c : Catalog} {edits : List Edit} (src : Source) (keyed : c.Keyed)
    (grounds : ∀ e ∈ edits, c.Grounds e) (distinct : (edits.map (·.ident)).Nodup) :
    ∃ d, edits.forM applyEdit src c = match c.firstRefusal? edits with
      | none => (.ok (), c.withStore (c.written edits))
      | some err => (.error err, d) := by
  induction edits generalizing c with
  | nil => exact ⟨c, by rw [written_nil]; rfl⟩
  | cons e es ih =>
    have here : (([e] ++ es).map (·.ident)).Nodup := distinct
    have unfolded : (e :: es).forM applyEdit src c = (applyEdit e >>= fun _ => es.forM applyEdit)
        src c := rfl
    rw [unfolded, Write.bind_apply, applyEdit_eq src keyed (grounds e List.mem_cons_self),
      firstRefusal?]
    cases c.refusal? e with
    | some err => exact ⟨c, rfl⟩
    | none =>
      obtain ⟨d, all⟩ := ih (c := c.withStore (c.written [e])) (keyed.written [e])
        (grounds_tail grounds) (List.nodup_cons.1 distinct).2
      rw [show e :: es = [e] ++ es from rfl, ← written_written here]
      exact ⟨d, all⟩

theorem firstRefusal?_cases {s : Store} {edits : List Edit} (keyed : s.Keyed)
    (grounds : ∀ e ∈ edits, s.Grounds e) (distinct : (edits.map (·.ident)).Nodup) :
    s.firstRefusal? edits = none ∧ s.TakesAll edits ∨
      ∃ err done e rest, s.firstRefusal? edits = some err ∧ edits = done ++ e :: rest ∧
        s.TakesAll done ∧ ¬(s.written done).Takes e ∧ e.RefusedBy err := by
  induction edits generalizing s with
  | nil => exact .inl ⟨rfl, trivial⟩
  | cons e es ih =>
    rw [firstRefusal?]
    rcases refusal?_cases keyed (grounds e List.mem_cons_self) with
      ⟨applied, takes⟩ | ⟨err, failed, refused, not⟩
    · rw [applied, Option.none_or]
      rcases ih (keyed.written [e]) (grounds_tail grounds) (List.nodup_cons.1 distinct).2 with
        ⟨all, takesAll⟩ | ⟨err, done, f, rest, first, rfl, takesAll, not, refused⟩
      · exact .inl ⟨all, takes, takesAll⟩
      · refine .inr ⟨err, e :: done, f, rest, first, rfl, ⟨takes, takesAll⟩, ?_, refused⟩
        have before : (([e] ++ done).map (·.ident)).Nodup :=
          distinct.sublist (((List.sublist_append_left done (f :: rest)).cons_cons e).map _)
        rw [show e :: done = [e] ++ done from rfl, ← written_written before]
        exact not
    · rw [failed]
      exact .inr ⟨err, [], e, es, rfl, rfl, trivial, by rwa [written_nil], refused⟩

/-! ### Editgroups -/

/-- Only an editgroup whose metadata can be read is read at all. -/
theorem isLegible_iff {row : EditgroupRow} :
    row.IsLegible ↔ ∃ header, headerOfRow row = .ok header := by
  unfold headerOfRow EditgroupRow.IsLegible
  cases row.extra with
  | none => simp
  | some text => simp [Except.bind_eq_ok]

theorem headerOfRow_eq_ok {row : EditgroupRow} {header : Editgroup}
    (h : headerOfRow row = .ok header) : header.id = row.id ∧ header.status = row.status := by
  unfold headerOfRow at h
  cases hextra : row.extra with
  | none =>
    rw [hextra] at h
    obtain rfl := Except.ok.inj h
    exact ⟨rfl, rfl⟩
  | some text =>
    rw [hextra] at h
    obtain ⟨extra, -, hheader⟩ := Except.bind_eq_ok.1 h
    obtain rfl := Except.ok.inj hheader
    exact ⟨rfl, rfl⟩

section Header
variable {s : Store} {group : EditgroupId}

theorem Keyed.getEditgroupHeader_eq_ok (keyed : s.Keyed) {header : Editgroup} :
    s.getEditgroupHeader group = .ok header ↔
      ∃ row ∈ s.editgroups, row.id = group ∧ headerOfRow row = .ok header := by
  simp only [getEditgroupHeader, Except.bind_eq_ok, found_eq_ok, keyed.editgroupRow?_eq_some,
    and_assoc]

/-- An editgroup is let through exactly if it can be worked on. -/
theorem Keyed.requireOpen_cases (keyed : s.Keyed) (group : EditgroupId) :
    (∃ header, s.requireOpen group = .ok header) ∧ s.HasWritable group ∨
      (∃ err, s.requireOpen group = .error err) ∧ ¬s.HasWritable group := by
  have unique : ∀ {header : Editgroup}, s.getEditgroupHeader group = .ok header →
      (s.HasWritable group ↔ header.status = .pending) := by
    intro header h
    obtain ⟨row, hrow, hid, hheader⟩ := keyed.getEditgroupHeader_eq_ok.1 h
    rw [(headerOfRow_eq_ok hheader).2]
    constructor
    · rintro ⟨row', hrow', hid', pending, -⟩
      rwa [keyed.editgroup_unique hrow hrow' (hid.trans hid'.symm)]
    · exact fun pending => ⟨row, hrow, hid, pending, isLegible_iff.2 ⟨_, hheader⟩⟩
  unfold requireOpen
  cases hheader : s.getEditgroupHeader group with
  | error err =>
    refine .inr ⟨⟨err, rfl⟩, ?_⟩
    rintro ⟨row, hrow, hid, -, legible⟩
    obtain ⟨header, h⟩ := isLegible_iff.1 legible
    rw [keyed.getEditgroupHeader_eq_ok.2 ⟨row, hrow, hid, h⟩] at hheader
    cases hheader
  | ok header =>
    rw [unique hheader]
    by_cases pending : header.status = .pending
    · exact .inl ⟨⟨header, by simp [pending]⟩, pending⟩
    · exact .inr ⟨⟨.notOpen group header.status, by simp [pending]⟩, pending⟩

theorem getEditgroup_eq (s : Store) (id : EditgroupId) :
    s.getEditgroup id = (found (.editgroup id) (s.editgroupRow? id)).bind fun row =>
      (headerOfRow row).map fun header =>
        { header with edits := s.editsOf id, changelog := s.changelogOf? id } := by
  unfold getEditgroup getEditgroupHeader
  cases s.editgroupRow? id with
  | none => rfl
  | some row => simp only [found]; cases headerOfRow row <;> rfl

theorem getEditgroup_eq_ok {s : Store} {id : EditgroupId} {group : Editgroup}
    (h : s.getEditgroup id = .ok group) :
    ∃ row header, s.editgroupRow? id = some row ∧ headerOfRow row = .ok header ∧
      group = { header with edits := s.editsOf id, changelog := s.changelogOf? id } := by
  rw [getEditgroup_eq] at h
  cases hrow : s.editgroupRow? id with
  | none => rw [hrow] at h; cases h
  | some row =>
    cases hheader : headerOfRow row with
    | error err => simp only [hrow, found, Except.bind, hheader] at h; cases h
    | ok header =>
      simp only [hrow, found, Except.bind, hheader] at h
      exact ⟨row, header, rfl, hheader, (Except.ok.inj h).symm⟩

theorem edits_eq_of_getEditgroup {s : Store} {id : EditgroupId} {view : Editgroup}
    (read : s.getEditgroup id = .ok view) : view.edits = s.editsOf id := by
  obtain ⟨row, header, -, -, rfl⟩ := getEditgroup_eq_ok read
  rfl

/-- An editgroup that reads as pending can be worked on. -/
theorem Keyed.hasWritable_of_pending (keyed : s.Keyed) {view : Editgroup}
    (read : s.getEditgroup group = .ok view) (pending : view.status = .pending) :
    s.HasWritable group := by
  obtain ⟨row, header, hrow, hheader, rfl⟩ := getEditgroup_eq_ok read
  obtain ⟨hmem, hid⟩ := keyed.editgroupRow?_eq_some.1 hrow
  exact ⟨row, hmem, hid, (headerOfRow_eq_ok hheader).2 ▸ pending, isLegible_iff.2 ⟨header, hheader⟩⟩

/-- An editgroup that can be worked on reads as pending. -/
theorem Keyed.pending_of_hasWritable (keyed : s.Keyed) (writable : s.HasWritable group) :
    ∃ view, s.getEditgroup group = .ok view ∧ view.status = .pending := by
  obtain ⟨row, hrow, hid, pending, legible⟩ := writable
  obtain ⟨header, hheader⟩ := isLegible_iff.1 legible
  have there : s.editgroupRow? group = some row := keyed.editgroupRow?_eq_some.2 ⟨hrow, hid⟩
  refine ⟨{ header with edits := s.editsOf group, changelog := s.changelogOf? group }, ?_,
    (headerOfRow_eq_ok hheader).2.trans pending⟩
  simp only [getEditgroup_eq, there, found, Except.bind, hheader, Except.map]

/-- The metadata of an accepted editgroup can be read: it could be when that was accepted. -/
theorem Arises.getEditgroupHeader (arises : s.Arises) {x : ChangelogEntry} (hx : x ∈ s.changelog) :
    ∃ header, s.getEditgroupHeader x.editgroup = .ok header := by
  obtain ⟨row, hrow, hid, -, legible⟩ := arises.logged.known x hx
  obtain ⟨header, hheader⟩ := isLegible_iff.1 legible
  exact ⟨header, arises.keyed.getEditgroupHeader_eq_ok.2 ⟨row, hrow, hid, hheader⟩⟩

end Header

/-! ### Acceptance -/

/-- The edits of an editgroup that do not all take effect: those before the first one that does
    not, that one, and those behind it. -/
structure StopsAt (s : Store) (group : EditgroupId) (done : List Edit) (e : Edit)
    (rest : List Edit) : Prop where
  order : inApplicationOrder (s.editsOf group) = done ++ e :: rest
  takes : s.TakesAll done
  refused : ¬(s.written done).Takes e

/-- The failure with which an editgroup is not accepted as the tables are. -/
def acceptRefusal? (s : Store) (group : EditgroupId) : Option CatalogError :=
  match s.requireOpen group with
  | .error err => some err
  | .ok _ => s.firstRefusal? (inApplicationOrder (s.editsOf group))

section Accept
variable {c : Catalog} {group : EditgroupId}

theorem StopsAt.not_takesAll {s : Store} {done rest : List Edit} {e : Edit} (keyed : s.Keyed)
    (h : s.StopsAt group done e rest) : ¬s.TakesAll (inApplicationOrder (s.editsOf group)) := by
  have distinct := keyed.inApplicationOrder_nodup group
  rw [h.order] at distinct ⊢
  exact fun takes => h.refused ((takesAll_append distinct).1 takes).2.1

/-- Behind the edits and the closing of the editgroup nothing fails any more. -/
theorem Arises.appendChangelog_eq (arises : c.Arises) (writable : c.HasWritable group)
    (src : Source) {closedAt : Instant} {d : Catalog}
    (hd : d.toStore = (c.written (inApplicationOrder (c.editsOf group))).closed group .accepted
      closedAt) :
    appendChangelog group src d = (.ok ⟨c.nextSeq, group, src.time d.ticks⟩,
      { d.withStore (c.accepted group closedAt (src.time d.ticks)) with
        ticks := d.ticks + 1 }) := by
  have known : d.changelog = c.changelog := by rw [hd]; rfl
  have unnumbered : (d.changelogEntry? c.nextSeq).isNone = true := by
    refine find?_isNone_iff.2 fun x hx => ?_
    have := arises.logged.lt_nextSeq (known ▸ hx)
    omega
  have unentered : (d.changelogOf? group).isNone = true :=
    find?_isNone_iff.2 fun x hx => arises.logged.not_entered arises.keyed writable x (known ▸ hx)
  have there : (d.editgroupRow? group).isSome = true := by
    obtain ⟨g, hg, hid, -, -⟩ := writable
    refine find?_isSome_iff.2 ?_
    rw [hd]
    exact ⟨_, mem_closed_editgroups.2 (.inr ⟨g, hg, hid, rfl⟩), hid⟩
  have next : d.nextSeq = c.nextSeq := by rw [nextSeq, nextSeq, known]
  refine Write.bind_eq_ok.2 ⟨c.nextSeq, d, look_eq_ok.2 ⟨by rw [next], rfl⟩, ?_⟩
  refine Write.bind_eq_ok.2 ⟨_, _, drawTime_eq_ok.2 ⟨rfl, rfl⟩, ?_⟩
  refine Write.bind_eq_ok.2 ⟨(), _, ?_, Write.pure_eq_ok.2 ⟨rfl, rfl⟩⟩
  refine Write.bind_eq_ok.2 ⟨(), _, demand_eq_ok.2 ⟨by rw [unnumbered, unentered]; rfl, rfl⟩, ?_⟩
  refine Write.bind_eq_ok.2 ⟨(), _, demand_eq_ok.2 ⟨there, rfl⟩, alter_eq_ok.2 ?_⟩
  rw [hd]
  rfl

/-- The edits of an editgroup refer to what is there. -/
theorem Arises.grounds_inApplicationOrder {s : Store} (arises : s.Arises) (group : EditgroupId) :
    ∀ e ∈ inApplicationOrder (s.editsOf group), s.Grounds e := fun e he =>
  arises.grounded.edits e (mem_editsOf.1 (mem_inApplicationOrder.1 he)).1

/-- An editgroup is accepted unless it is refused. -/
theorem Arises.accept_eq (arises : c.Arises) (src : Source) (group : EditgroupId) :
    ∃ d, accept group src c = match c.acceptRefusal? group with
      | none => (.ok ⟨c.nextSeq, group, src.time (c.ticks + 1)⟩, c.accepting src group)
      | some err => (.error err, d) := by
  unfold accept acceptRefusal?
  have looked : look (requireOpen group) src c = (c.requireOpen group, c) := rfl
  rw [Write.bind_apply, looked]
  rcases arises.keyed.requireOpen_cases group with ⟨⟨header, writable⟩, has⟩ | ⟨⟨err, writable⟩, -⟩
  swap
  · exact ⟨c, by rw [writable]⟩
  simp only [writable, Write.bind_apply (look fun s => .ok (s.editsOf group))]
  rw [show look (fun s => .ok (s.editsOf group)) src c = (.ok (c.editsOf group), c) from rfl]
  simp only [Write.bind_apply ((inApplicationOrder (c.editsOf group)).forM applyEdit)]
  obtain ⟨d, all⟩ := forM_applyEdit_eq src arises.keyed (arises.grounds_inApplicationOrder group)
    (arises.keyed.inApplicationOrder_nodup group)
  rw [all]
  cases c.firstRefusal? (inApplicationOrder (c.editsOf group)) with
  | some err => exact ⟨d, rfl⟩
  | none =>
    exact ⟨c, Write.bind_eq_ok.2 ⟨_, _, drawTime_eq_ok.2 ⟨rfl, rfl⟩,
      Write.bind_eq_ok.2 ⟨(), _, alter_eq_ok.2 rfl, arises.appendChangelog_eq has src rfl⟩⟩⟩

/-- An editgroup is refused unless it can be worked on and all its edits take effect. -/
theorem Arises.acceptRefusal?_cases {s : Store} (arises : s.Arises) (group : EditgroupId) :
    s.acceptRefusal? group = none ∧ s.HasWritable group ∧
        s.TakesAll (inApplicationOrder (s.editsOf group)) ∨
      ∃ err, s.acceptRefusal? group = some err ∧
        (¬s.HasWritable group ∨
          s.HasWritable group ∧ ∃ done e rest, s.StopsAt group done e rest ∧ e.RefusedBy err) := by
  unfold acceptRefusal?
  rcases arises.keyed.requireOpen_cases group with
    ⟨⟨header, writable⟩, has⟩ | ⟨⟨err, writable⟩, hasNot⟩
  swap
  · exact .inr ⟨err, by rw [writable], .inl hasNot⟩
  simp only [writable]
  rcases firstRefusal?_cases arises.keyed (arises.grounds_inApplicationOrder group)
    (arises.keyed.inApplicationOrder_nodup group) with
    ⟨all, takes⟩ | ⟨err, done, e, rest, first, order, takes, not, refused⟩
  · exact .inl ⟨all, has, takes⟩
  · exact .inr ⟨err, first, .inr ⟨has, done, e, rest, ⟨order, takes, not⟩, refused⟩⟩

/-- An editgroup is accepted if it can be worked on and all its edits take effect; otherwise it
    cannot be worked on, or the failure is that of the first edit that does not. -/
theorem Arises.accept_cases (arises : c.Arises) (src : Source) (group : EditgroupId) :
    accept group src c =
          (.ok ⟨c.nextSeq, group, src.time (c.ticks + 1)⟩, c.accepting src group) ∧
        c.HasWritable group ∧ c.TakesAll (inApplicationOrder (c.editsOf group)) ∨
      ∃ err d, accept group src c = (.error err, d) ∧
        (¬c.HasWritable group ∨
          c.HasWritable group ∧ ∃ done e rest, c.StopsAt group done e rest ∧ e.RefusedBy err) := by
  obtain ⟨d, performed⟩ := arises.accept_eq src group
  rcases arises.acceptRefusal?_cases group with ⟨passed, writable, takes⟩ | ⟨err, failed, why⟩
  · exact .inl ⟨by rw [performed, passed], writable, takes⟩
  · exact .inr ⟨err, d, by rw [performed, failed], why⟩

end Accept

end Store

end Biblio
